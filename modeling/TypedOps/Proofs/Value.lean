import TypedOps.Proofs.Operation.Default
import TypedOps.Proofs.Text.Quoted

/-!
# `TypedOps.Proofs.Value`: what a shown default holds

A default is shown as a literal, a bare name or a number. Numbers and names hold no
quotes, and what separates the items of a list holds none either, so every triple
quote in a shown default comes from one of its strings: where no string in a value
holds one, what documentation shows of it holds none (`tripleQuotes_shownDefault`).

So it is with every code point that no literal is written with. It stands in the
spelling of a value just where one of its strings holds it and it may be shown
(`mem_spelled_iff`).
-/

set_option autoImplicit false

namespace TypedOps

open Text

/-! ### Numbers -/

namespace Floating

/-- The text of a decimal is a `Numeral`, in the `scientific` form as well as in the `positional`
one. -/
theorem numeral_decimalText (d : Decimal) : Numeral d.text := by
  have hdigits : Numeral d.significantDigits :=
    (numeral_ofNat d.digits).of_isInfix (isPrefix_trimEnd _ _).isInfix
  have hzero : '0' ∈ numeralChars := by decide
  have hpoint : '.' ∈ numeralChars := by decide
  have hexponent : ∀ sign ∈ ['-', '+'], Numeral ['e', sign] := by decide
  rw [Decimal.text]
  split
  · -- Scientific form: the digits with a point behind the first, and the exponent.
    simp only [scientific, numeral_append]
    refine ⟨⟨?_, ?_⟩, numeral_padded 10 2 _⟩
    · split
      · exact numeral_nil
      · next digit heq => rwa [heq] at hdigits
      · next digit rest _ heq =>
        rw [heq, numeral_cons] at hdigits
        simp [hdigits, hpoint]
    · split
      · exact hexponent '-' (by decide)
      · exact hexponent '+' (by decide)
  · -- Positional form: the point stands in front of the digits, behind or among them.
    rw [positional]
    -- Zeros in front, zeros behind, or the point among the digits.
    split
    · simp [hzero, hpoint, hdigits, numeral_fill _ hzero]
    · simp only
      split
      · simp [hzero, hpoint, hdigits, numeral_fill _ hzero]
      · have htake := hdigits.of_isInfix
          (List.take_prefix (d.top.toNat + 1) d.significantDigits).isInfix
        have hdrop := hdigits.of_isInfix
          (List.drop_suffix (d.top.toNat + 1) d.significantDigits).isInfix
        simp [hpoint, htake, hdrop]

/-- The text of a double is a `Numeral`, with infinities and what is no number included. -/
theorem numeral_text (x : Floating) : Numeral x.text := by
  -- The names of the special values are numerals by definition.
  cases x with
  | nan => decide
  | infinite negative => cases negative <;> decide
  | finite negative m e =>
    have hmagnitude : Numeral (if m = 0 then ("0.0" : Text)
        else (shortest (fraction m e).1 (fraction m e).2).text) := by
      split
      · decide
      · exact numeral_decimalText _
    have hminus : '-' ∈ numeralChars := by decide
    rw [text]
    split
    · rw [numeral_cons]
      exact ⟨hminus, hmagnitude⟩
    · exact hmagnitude

end Floating

/-! ### Literals -/

/-- Pieces without triple quotes, put together by `join` with a comma between neighbours, hold none.
-/
theorem tripleQuotes_join {pieces : List Text} (h : ∀ piece ∈ pieces, tripleQuotes piece = 0) :
    tripleQuotes (join ", " pieces) = 0 := by
  have hcomma : (',' : Char) ≠ '"' := by decide
  have hspace : (' ' : Char) ≠ '"' := by decide
  -- The induction is on the pieces, and the comma with its blank keeps neighbours apart.
  induction pieces with
  | nil => rfl
  | cons piece pieces ih =>
    have hpiece := h piece List.mem_cons_self
    have ih := ih fun p hp => h p (List.mem_cons_of_mem _ hp)
    cases pieces with
    | nil => exact hpiece
    | cons next rest =>
      have hjoin : join ", " (piece :: next :: rest) =
          piece ++ ',' :: ' ' :: join ", " (next :: rest) := by
        simp [join]
      rw [hjoin, tripleQuotes_append_cons _ hcomma, tripleQuotes_cons hspace, hpiece, ih]

/-- A text between two brackets keeps its `tripleQuotes`, since neither bracket begins or continues
a run of quotes. -/
theorem tripleQuotes_bracketed {opening : Char} {closing : Text} (hopening : opening ≠ '"')
    (hclosing : '"' ∉ closing) (hne : closing ≠ []) (t : Text) :
    tripleQuotes (opening :: t ++ closing) = tripleQuotes t := by
  cases closing with
  | nil => exact absurd rfl hne
  | cons c closing =>
    simp only [List.mem_cons, not_or] at hclosing
    have hrest := tripleQuotes_append_of_not_mem hclosing.2 []
    rw [List.append_nil] at hrest
    rw [List.cons_append, tripleQuotes_cons hopening,
      tripleQuotes_append_cons _ (Ne.symm hclosing.1), hrest]
    rfl

/-- What the separator does not hold stands in a `join` of pieces just where one of the pieces holds
it. -/
theorem mem_join_iff {sep : Text} {c : Char} (hc : c ∉ sep) {pieces : List Text} :
    c ∈ join sep pieces ↔ ∃ piece ∈ pieces, c ∈ piece := by
  induction pieces with
  | nil => simp [join]
  | cons piece pieces ih =>
    cases pieces with
    | nil => simp [join]
    | cons next rest => simp [join, hc, ih]

namespace Value

mutual

/-- The strings in a value, a byte string as its code points. Items of a list or a tuple are gone
through by `stringsAmong`. -/
def strings : Value → List Text
  | .text t => [t]
  | .list items => stringsAmong items
  | .tuple items => stringsAmong items
  | .bytes content => [ofBytes content]
  | _ => []

/-- The `strings` of several values, one value after the other. -/
def stringsAmong : List Value → List Text
  | [] => []
  | item :: items => strings item ++ stringsAmong items

end

mutual

/-- A value whose `strings` hold no triple quote has a `spelled` form without one. -/
theorem tripleQuotes_spelled :
    ∀ v : Value, (∀ t ∈ v.strings, tripleQuotes t = 0) → tripleQuotes v.spelled = 0
  | .nothing, _ => rfl
  | .bool b, _ => by cases b <;> rfl
  | .int i, _ => (plain_ofInt i).tripleQuotes
  | .float x, _ => (Floating.numeral_text x).plain.tripleQuotes
  | .text t, h => tripleQuotes_quoted (h t (by simp [strings]))
  | .bytes content, h => tripleQuotes_quotedBytes (h _ (by simp [strings]))
  | .list items, h => by
    have hall := tripleQuotes_spelledAll items h
    rw [spelled, tripleQuotes_bracketed (by decide) (by decide) (by simp)]
    exact tripleQuotes_join hall
  | .tuple items, h => by
    have hall := tripleQuotes_spelledAll items h
    match items with
    | [] => rfl
    | [item] =>
      rw [spelled, tripleQuotes_bracketed (by decide) (by decide) (by simp)]
      exact hall item.spelled (by simp [spelledAll])
    | item :: next :: rest =>
      rw [spelled, tripleQuotes_bracketed (by decide) (by decide) (by simp)]
      · exact tripleQuotes_join hall
      · simp

/-- Several values whose `strings` hold no triple quote have `spelledAll` forms without one. This is
the half of the mutual induction that is about items. -/
theorem tripleQuotes_spelledAll :
    ∀ items : List Value, (∀ t ∈ stringsAmong items, tripleQuotes t = 0) →
      ∀ t ∈ spelledAll items, tripleQuotes t = 0
  | [], _ => by simp [spelledAll]
  | item :: items, h => by
    rw [stringsAmong, List.forall_mem_append] at h
    rw [spelledAll, List.forall_mem_cons]
    exact ⟨tripleQuotes_spelled item h.1, tripleQuotes_spelledAll items h.2⟩

end

/-- A code point outside the `literalChars` stands in no number and no name of a value. -/
theorem not_mem_of_subset {c : Char} (hc : c ∉ literalChars) {t : Text}
    (h : ∀ d ∈ t, d ∈ literalChars) : c ∉ t :=
  fun hmem => hc (h c hmem)

/-- A code point outside the `literalChars` stands between brackets just where it stands in one of
the pieces. -/
theorem mem_bracketed_iff {c : Char} (hc : c ∉ literalChars) {opening : Char} {closing : Text}
    (hopening : opening ∈ literalChars) (hclosing : ∀ d ∈ closing, d ∈ literalChars)
    (pieces : List Text) :
    c ∈ opening :: join ", " pieces ++ closing ↔ ∃ piece ∈ pieces, c ∈ piece := by
  have hfirst : c ≠ opening := fun heq => hc (heq ▸ hopening)
  have hsep : c ∉ ", ".toList := not_mem_of_subset hc (by decide)
  rw [List.cons_append, List.mem_cons, List.mem_append, mem_join_iff hsep]
  simp only [hfirst, not_mem_of_subset hc hclosing, false_or, or_false]

mutual

/-- A code point outside the `literalChars` stands in a spelling just where one of the strings holds
it and it may be shown. -/
theorem mem_spelled_iff {c : Char} (hc : c ∉ literalChars) : ∀ v : Value, v.Writable →
    (c ∈ v.spelled ↔ (∃ t ∈ v.strings, c ∈ t) ∧ isPrintable c = true)
  | .nothing, _ => by
    simpa [spelled, strings] using not_mem_of_subset hc (t := "None") (by decide)
  | .bool b, _ => by
    have hname : ∀ b : Bool, ∀ d ∈ spelled (.bool b), d ∈ literalChars := by decide
    simpa [strings] using not_mem_of_subset hc (hname b)
  | .int i, _ => by
    simpa [spelled, strings] using not_mem_of_subset hc fun d hd =>
      List.mem_append_right _ (numeral_ofInt i d hd)
  | .float x, _ => by
    simpa [spelled, strings] using not_mem_of_subset hc fun d hd =>
      List.mem_append_right _ (x.numeral_text d hd)
  | .text t, _ => by
    simpa [spelled, strings] using mem_quoted_iff hc t
  | .bytes content, h => by cases h _ List.mem_cons_self
  | .list items, h => by
    rw [spelled, strings, mem_bracketed_iff hc (by decide) (by decide)]
    exact exists_mem_spelledAll_iff hc items (writable_list_iff.mp h)
  | .tuple items, h => by
    have hall := exists_mem_spelledAll_iff hc items (writable_tuple_iff.mp h)
    match items with
    | [] => exact (mem_bracketed_iff hc (by decide) (by decide) []).trans hall
    | [item] => exact (mem_bracketed_iff hc (by decide) (by decide) [item.spelled]).trans hall
    | item :: next :: rest =>
      exact (mem_bracketed_iff hc (by decide) (by decide) _).trans hall

/-- A code point outside the `literalChars` stands in one of several spellings just where one of the
strings holds it and it may be shown. -/
theorem exists_mem_spelledAll_iff {c : Char} (hc : c ∉ literalChars) :
    ∀ items : List Value, (∀ item ∈ items, item.Writable) →
    ((∃ t ∈ spelledAll items, c ∈ t) ↔ (∃ t ∈ stringsAmong items, c ∈ t) ∧ isPrintable c = true)
  | [], _ => by simp [spelledAll, stringsAmong]
  | item :: items, h => by
    obtain ⟨hitem, hitems⟩ := List.forall_mem_cons.mp h
    have hfirst := mem_spelled_iff hc item hitem
    have hrest := exists_mem_spelledAll_iff hc items hitems
    simp only [spelledAll, stringsAmong, List.mem_cons, List.mem_append, or_and_right, exists_or,
      exists_eq_left, hfirst, hrest]

end

/-! ### Shown defaults -/

/-- The `stringsAmong` several values are the strings of one of them. -/
theorem mem_stringsAmong {items : List Value} {t : Text} :
    t ∈ stringsAmong items ↔ ∃ item ∈ items, t ∈ item.strings := by
  induction items with
  | nil => simp [stringsAmong]
  | cons item items ih =>
    rw [stringsAmong, List.mem_append, ih]
    simp

/-- The `items` that a value is walked through for hold no strings but its own, or single code
points. -/
theorem tripleQuotes_of_text_mem_items {v : Value} (h : ∀ t ∈ v.strings, tripleQuotes t = 0)
    {vs : List Value} (hitems : v.items = .ok vs) {t : Text} (ht : Value.text t ∈ vs) :
    tripleQuotes t = 0 := by
  have hown : ∀ items : List Value, Value.text t ∈ items → t ∈ stringsAmong items :=
    fun items hmem => mem_stringsAmong.mpr ⟨_, hmem, by simp [strings]⟩
  unfold items at hitems
  -- Two kinds of value have items of their own, which hold strings of the value.
  split at hitems
  · cases hitems
    exact h t (hown _ ht)
  · cases hitems
    exact h t (hown _ ht)
  · -- A text is walked through code point by code point, and one is too short.
    cases hitems
    obtain ⟨c, -, hc⟩ := List.mem_map.mp ht
    cases hc
    refine tripleQuotes_of_count_le (Nat.le_trans List.count_le_length ?_)
    simp
  · -- Bytes give numbers.
    cases hitems
    obtain ⟨b, -, hb⟩ := List.mem_map.mp ht
    cases hb
  · cases hitems

/-- A value whose `strings` hold no triple quote has a `literal` without one, if it has a literal at
all. -/
theorem tripleQuotes_literal {v : Value} (h : ∀ t ∈ v.strings, tripleQuotes t = 0) {t : Text}
    (hliteral : v.literal = .ok t) : tripleQuotes t = 0 := by
  rw [literal] at hliteral
  split at hliteral
  · cases hliteral
  · cases hliteral
    exact tripleQuotes_spelled v h

/-- What `asShownFloat` gives is a number, so it holds no strings. -/
theorem strings_of_asShownFloat {v shown : Value} (h : v.asShownFloat = .ok shown) :
    shown.strings = [] := by
  obtain ⟨x, -, hx⟩ := (bind_eq_ok_iff _ _ _).mp h
  cases hx
  rfl

/-- What `shownDefault` gives for a value whose strings hold no triple quote holds none, whatever
the type tag. -/
theorem tripleQuotes_shownDefault {v : Value} (h : ∀ t ∈ v.strings, tripleQuotes t = 0)
    {tag shown : Text} (hshown : v.shownDefault tag = .ok shown) : tripleQuotes shown = 0 := by
  simp only [shownDefault] at hshown
  split at hshown
  · split at hshown
    · -- A list of types: bare names between brackets.
      obtain ⟨vs, hvs, hshown⟩ := (bind_eq_ok_iff _ _ _).mp hshown
      obtain ⟨names, hnames, hshown⟩ := (bind_eq_ok_iff _ _ _).mp hshown
      cases hshown
      -- The names are the strings of the value itself, so they hold no triple quote.
      have hall : ∀ name ∈ names, tripleQuotes name = 0 := by
        intro name hname
        obtain ⟨x, hx, hasText⟩ := exists_of_mem_mapM hnames hname
        cases x with
        | text t =>
          cases hasText
          exact tripleQuotes_of_text_mem_items h hvs hx
        | _ => cases hasText
      have hjoin := tripleQuotes_join hall
      rw [← hjoin]
      exact tripleQuotes_bracketed (by decide) (by decide) (by simp) _
    · -- A single type: a bare name, or whatever value stands in its place.
      unfold inline at hshown
      split at hshown
      · cases hshown
        exact h _ (by simp [strings])
      · split at hshown
        · cases hshown
        · cases hshown
          exact tripleQuotes_spelled v h
  · split at hshown
    · -- A list of floats, or a single one, is shown as numbers only.
      split at hshown
      · obtain ⟨vs, hvs, hshown⟩ := (bind_eq_ok_iff _ _ _).mp hshown
        obtain ⟨floats, hfloats, hshown⟩ := (bind_eq_ok_iff _ _ _).mp hshown
        refine tripleQuotes_literal (fun t ht => ?_) hshown
        obtain ⟨x, hx, ht⟩ := mem_stringsAmong.mp ht
        obtain ⟨y, -, hy⟩ := exists_of_mem_mapM hfloats hx
        rw [strings_of_asShownFloat hy] at ht
        cases ht
      · obtain ⟨x, hx, hshown⟩ := (bind_eq_ok_iff _ _ _).mp hshown
        refine tripleQuotes_literal (fun t ht => ?_) hshown
        rw [strings_of_asShownFloat hx] at ht
        cases ht
    -- Any other value is shown as its literal.
    · exact tripleQuotes_literal h hshown

end Value

end TypedOps
