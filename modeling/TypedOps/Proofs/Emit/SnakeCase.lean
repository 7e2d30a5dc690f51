import TypedOps.Proofs.Emit.CodeLines
import TypedOps.Proofs.Text.Separated

/-!
# `TypedOps.Proofs.Emit.SnakeCase`: where snake case puts low lines

Snake case walks along a name with the code point before at hand. `Naming.StartsWordAt` says by
places alone where it puts a low line. Nothing is assumed of a name but that it is ASCII, where
every code point has one lower-case form.

* `Naming.snakeCase_eq_separated`: snake case is the name in lower case with a low line in front
  of these places.
* `Naming.apart_wordStarts`: none of these low lines comes to stand beside another one, so what
  `Text.Apart` gives holds of them.
* `Naming.snakeCase_lower_case`: a name without upper-case letters is its own snake case.
* `Naming.snakeCase_separates`: what snake case does to a name, clause by clause.
-/

set_option autoImplicit false

namespace TypedOps

open Text

namespace Text

/-! ### Letters of ASCII -/

/-- A property that `Char.ofNat` gives for the first 128 numbers holds of all of ASCII. It turns the
lemmas below into finite checks. -/
theorem of_ascii (p : Char → Prop) (h : ∀ n < 128, p (Char.ofNat n)) {c : Char}
    (hc : c.toNat < 128) : p c := by
  have hnumber := h c.toNat hc
  rwa [Char.ofNat_toNat] at hnumber

/-- In ASCII the lower-case form `lowered` is one code point. -/
theorem lowered_of_ascii {c : Char} : c.toNat < 128 → lowered c = [c.toLower] :=
  of_ascii (fun c => lowered c = [c.toLower]) (by decide)

/-- In ASCII the letters of `isUpper`, which goes by Unicode, are those from A to Z. -/
theorem isUpper_of_ascii {c : Char} : c.toNat < 128 → isUpper c = c.isUpper :=
  of_ascii (fun c => isUpper c = c.isUpper) (by decide)

/-- In ASCII the letters of `isLower`, which goes by Unicode, are those from a to z. -/
theorem isLower_of_ascii {c : Char} : c.toNat < 128 → isLower c = c.isLower :=
  of_ascii (fun c => isLower c = c.isLower) (by decide)

/-- A code point of ASCII is turned by `toLower` into one of ASCII that is no upper-case letter. -/
theorem toLower_of_ascii {c : Char} :
    c.toNat < 128 → c.toLower.toNat < 128 ∧ c.toLower.isUpper = false :=
  of_ascii (fun c => c.toLower.toNat < 128 ∧ c.toLower.isUpper = false) (by decide)

/-- What is no upper-case letter of ASCII is left by `toLower` as it is. -/
theorem toLower_eq_self_of_ascii {c : Char} : c.toNat < 128 → c.isUpper = false → c.toLower = c :=
  of_ascii (fun c => c.isUpper = false → c.toLower = c) (by decide)

/-- Only the low line is turned by `toLower` into the low line. -/
theorem toLower_eq_low_line_iff {c : Char} : c.toNat < 128 → (c.toLower = '_' ↔ c = '_') :=
  of_ascii (fun c => c.toLower = '_' ↔ c = '_') (by decide)

end Text

namespace Naming

/-! ### Where words start -/

/-- A low line belongs in front of a place behind the first: there stands an upper-case letter, with
no low line before it and a lower-case letter before or behind it. In ASCII names this is what
`startsWord` tests. -/
def StartsWordAt (name : Text) (i : Nat) : Prop :=
  0 < i ∧ name[i]?.any Char.isUpper = true ∧ name[i - 1]? ≠ some '_' ∧
    (name[i - 1]?.any Char.isLower = true ∨ name[i + 1]?.any Char.isLower = true)

instance (name : Text) (i : Nat) : Decidable (StartsWordAt name i) :=
  inferInstanceAs (Decidable (0 < i ∧ name[i]?.any Char.isUpper = true ∧ name[i - 1]? ≠ some '_' ∧
    (name[i - 1]?.any Char.isLower = true ∨ name[i + 1]?.any Char.isLower = true)))

/-- The places where `StartsWordAt` holds, as a set that can be computed with. -/
def wordStarts (name : Text) (i : Nat) : Bool := decide (StartsWordAt name i)

/-- Where in the snake case of a name the low lines stand that were put in: the `separatorPlaces` of
the starts of words. -/
def lowLinePlaces (name : Text) : List Nat := separatorPlaces (wordStarts name) name.length

/-- The code points before and behind tell `startsWord` whether a word starts at a place, and it
answers as `wordStarts` does for the whole name. -/
theorem startsWord_eq {front rest : Text} {c : Char}
    (h : ∀ d ∈ front ++ c :: rest, d.toNat < 128) :
    startsWord front.getLast? c rest.head? = wordStarts (front ++ c :: rest) front.length := by
  rcases List.eq_nil_or_concat' front with rfl | ⟨front, b, rfl⟩
  · -- Nothing is before the first place, and neither side puts a low line there.
    simp [startsWord, wordStarts, StartsWordAt]
  · have hlast : (front ++ [b]).getLast? = some b := by simp
    -- The places before, at and behind the code point are read off the name.
    have hhere : (front ++ [b] ++ c :: rest)[(front ++ [b]).length]? = some c := by simp
    have hbefore : (front ++ [b] ++ c :: rest)[(front ++ [b]).length - 1]? = some b := by simp
    have hbehind : (front ++ [b] ++ c :: rest)[(front ++ [b]).length + 1]? = rest.head? := by
      rw [List.getElem?_append_right (by omega), Nat.add_sub_cancel_left, List.getElem?_cons_succ,
        List.head?_eq_getElem?]
    have hlower : rest.head?.any isLower = rest.head?.any Char.isLower := by
      cases rest with
      | nil => rfl
      | cons d rest => exact isLower_of_ascii (h d (by simp))
    rw [Bool.eq_iff_iff, wordStarts, decide_eq_true_iff, StartsWordAt, hhere, hbefore, hbehind,
      hlast, startsWord, hlower, isUpper_of_ascii (h c (by simp)),
      isLower_of_ascii (h b (by simp))]
    simp only [Bool.and_eq_true, Bool.or_eq_true, bne_iff_ne, Option.any_some, ne_eq,
      Option.some.injEq, List.length_append, List.length_singleton, Nat.zero_lt_succ, true_and]
    tauto

/-- From any place on, snake case is `separatedFrom`: the lower case with a low line where a word
starts, by induction over the rest of the name. -/
theorem snakeCaseFrom_eq_separatedFrom (front : Text) {rest : Text}
    (h : ∀ d ∈ front ++ rest, d.toNat < 128) :
    snakeCaseFrom front.getLast? rest =
      separatedFrom '_' (wordStarts (front ++ rest)) front.length (rest.map Char.toLower) := by
  -- What has been read decides on a low line in front, so it varies in the induction.
  induction rest generalizing front with
  | nil => rfl
  | cons c rest ih =>
    have happend : front ++ c :: rest = (front ++ [c]) ++ rest := by simp
    have hrest := ih (front ++ [c]) (happend ▸ h)
    rw [List.getLast?_concat, ← happend, List.length_append] at hrest
    rw [snakeCaseFrom, List.map_cons, separatedFrom, startsWord_eq h,
      lowered_of_ascii (h c (by simp)), hrest, List.append_assoc]
    rfl

/-- The `snakeCase` of a name in ASCII is its lower case with a low line put in where a word starts.
-/
theorem snakeCase_eq_separated {name : Text} (h : ∀ c ∈ name, c.toNat < 128) :
    snakeCase name = separated '_' (wordStarts name) (name.map Char.toLower) :=
  snakeCaseFrom_eq_separatedFrom [] h

/-- A name in ASCII has, under `toLower`, low lines where it has them itself, and nowhere else. -/
theorem getElem?_map_toLower_eq_low_line_iff {name : Text} (h : ∀ c ∈ name, c.toNat < 128)
    (i : Nat) : (name.map Char.toLower)[i]? = some '_' ↔ name[i]? = some '_' := by
  rw [List.getElem?_map]
  cases hc : name[i]? with
  | none => simp
  | some c =>
    rw [Option.map_some, Option.some.injEq, Option.some.injEq]
    exact toLower_eq_low_line_iff (h c (List.mem_of_getElem? hc))

/-- The `wordStarts` keep low lines `Apart`: one is put in behind the first code point only, and
between two code points that are no low lines. -/
theorem apart_wordStarts {name : Text} (h : ∀ c ∈ name, c.toNat < 128) :
    Apart '_' (wordStarts name) (name.map Char.toLower) := by
  intro i hi
  obtain ⟨hpos, hupper, hbefore, -⟩ := of_decide_eq_true hi
  have hline := getElem?_map_toLower_eq_low_line_iff h
  refine ⟨Nat.ne_of_gt hpos, fun hlow => hbefore ((hline (i - 1)).mp hlow), fun hlow => ?_⟩
  rw [(hline i).mp hlow] at hupper
  exact absurd hupper (by decide)

/-- No code point of the `snakeCase` of a name in ASCII is an upper-case letter, and all are ASCII.
-/
theorem mem_snakeCase_of_ascii {name : Text} (h : ∀ c ∈ name, c.toNat < 128) :
    ∀ c ∈ snakeCase name, c.toNat < 128 ∧ c.isUpper = false := by
  intro c hc
  obtain rfl | ⟨d, hd, hlow⟩ := mem_snakeCaseFrom hc
  · decide
  · rw [lowered_of_ascii (h d hd), List.mem_singleton] at hlow
    rw [hlow]
    exact toLower_of_ascii (h d hd)

/-- From any place on, `snakeCaseFrom` leaves a name in ASCII without upper-case letters as it is.
-/
theorem snakeCaseFrom_lower_case (before : Option Char) {name : Text}
    (h : ∀ c ∈ name, c.toNat < 128 ∧ c.isUpper = false) : snakeCaseFrom before name = name := by
  induction name generalizing before with
  | nil => rfl
  | cons c name ih =>
    obtain ⟨hascii, hupper⟩ := h c List.mem_cons_self
    have hstart : startsWord before c name.head? = false := by
      cases before with
      | none => rfl
      | some b => simp [startsWord, isUpper_of_ascii hascii, hupper]
    rw [snakeCaseFrom, hstart, lowered_of_ascii hascii, toLower_eq_self_of_ascii hascii hupper,
      ih (some c) fun d hd => h d (List.mem_cons_of_mem c hd)]
    rfl

/-- A name in ASCII without upper-case letters is its own `snakeCase`. -/
theorem snakeCase_lower_case {name : Text}
    (h : ∀ c ∈ name, c.toNat < 128 ∧ c.isUpper = false) : snakeCase name = name :=
  snakeCaseFrom_lower_case none h

/-! ### What snake case does -/

/-- The `snakeCase` of a name in ASCII has no upper-case letter. It is the name in lower case with
low lines put in, and it can be so in one way only: in front of the places where words start. Taking
away what stands at their places, all of it low lines, gives the name in lower case back. A low line
stands first or last just when one does in the name, and two in a row are two in a row of the name.
The snake case of the snake case is itself. -/
theorem snakeCase_separates {name : Text} (h : ∀ c ∈ name, c.toNat < 128) :
    (∀ c ∈ snakeCase name, c.toNat < 128 ∧ c.isUpper = false) ∧
      (∀ here : Nat → Bool, separated '_' here (name.map Char.toLower) = snakeCase name ↔
        ∀ i < name.length, here i = true ↔ StartsWordAt name i) ∧
      without (lowLinePlaces name) (snakeCase name) = name.map Char.toLower ∧
      (∀ j ∈ lowLinePlaces name, (snakeCase name)[j]? = some '_') ∧
      ((snakeCase name).head? = some '_' ↔ name.head? = some '_') ∧
      ((snakeCase name).getLast? = some '_' ↔ name.getLast? = some '_') ∧
      (∀ j, (snakeCase name)[j]? = some '_' → (snakeCase name)[j + 1]? = some '_' →
        ∃ i, j = separatorPlace (wordStarts name) i ∧
          name[i]? = some '_' ∧ name[i + 1]? = some '_') ∧
      snakeCase (snakeCase name) = snakeCase name := by
  have hapart := apart_wordStarts h
  have heq := snakeCase_eq_separated h
  have hlength : (name.map Char.toLower).length = name.length := List.length_map ..
  have hline := getElem?_map_toLower_eq_low_line_iff h
  have hmem := mem_snakeCase_of_ascii h
  -- The name is the lower case with separators put in that are apart, and every clause is one of
  -- `Text.Separated` for such a text.
  refine ⟨hmem, fun here => ?_, ?_, fun j hj => ?_, ?_, ?_, fun j hj hnext => ?_,
    snakeCase_lower_case hmem⟩
  · rw [heq, hapart.separated_eq_iff, hlength]
    exact forall₂_congr fun i _ => by rw [Bool.eq_iff_iff, wordStarts, decide_eq_true_iff]
  · rw [heq, lowLinePlaces, ← hlength]
    exact without_separated '_' (wordStarts name) (name.map Char.toLower)
  · rw [lowLinePlaces, ← hlength] at hj
    rw [heq]
    exact getElem?_of_mem_separatorPlaces hj
  · rw [heq, hapart.head?_separated, List.head?_eq_getElem?, List.head?_eq_getElem?, hline]
  · rw [heq, separated, getLast?_separatedFrom, List.getLast?_eq_getElem?,
      List.getLast?_eq_getElem?, hlength, hline]
  · rw [heq] at hj hnext
    obtain ⟨i, hplace, hi, hbehind⟩ := hapart.exists_double hj hnext
    exact ⟨i, hplace, (hline i).mp hi, (hline (i + 1)).mp hbehind⟩

/-- A name for `snakeCase` with a run of capitals, a digit, two low lines in a row and one at its
end. -/
def Sample.acronyms : Text := "XMLTo__HTTP2Proxy_"

/-- Two low lines are put into `acronyms`, and its own stay as they are. -/
theorem snakeCase_separates_acronyms :
    (∀ c ∈ Sample.acronyms, c.toNat < 128) ∧
      snakeCase Sample.acronyms = "xml_to__http2_proxy_" ∧
      (∀ here : Nat → Bool,
        separated '_' here "xmlto__http2proxy_" = snakeCase Sample.acronyms ↔
          ∀ i < 18, here i = true ↔ StartsWordAt Sample.acronyms i) ∧
      lowLinePlaces Sample.acronyms = [3, 13] ∧
      without [3, 13] (snakeCase Sample.acronyms) = "xmlto__http2proxy_" ∧
      snakeCase (snakeCase Sample.acronyms) = snakeCase Sample.acronyms := by
  have hascii : ∀ c ∈ Sample.acronyms, c.toNat < 128 := by decide
  have hsnake : snakeCase Sample.acronyms = "xml_to__http2_proxy_" := by decide
  have hplaces : lowLinePlaces Sample.acronyms = [3, 13] := by decide
  obtain ⟨-, hseparated, hwithout, -, -, -, -, hagain⟩ := snakeCase_separates hascii
  rw [hplaces] at hwithout
  exact ⟨hascii, hsnake, hseparated, hplaces, hwithout, hagain⟩

end Naming

end TypedOps
