import TypedOps.Proofs.Text.Plain
import TypedOps.Text.Quoted

/-!
# `TypedOps.Proofs.Text.Quoted`: literals of texts without triple quotes

A literal changes its text code point by code point and puts a quote at either end. A
single quote at the ends separates them from the text, whose quotes stay as they are.
A double quote encloses only a text that holds none, so the literal holds two. Either
way a text without triple quotes has a literal without them (`tripleQuotes_quoted`).

Quotes and escapes are written with `literalChars`. Any other code point stands in a
literal just where it stands in the text and may be shown (`mem_quoted_iff`).
-/

set_option autoImplicit false

namespace TypedOps.Text

/-- An escape by number is not empty and holds no quotes, as `tripleQuotes_flatMap` asks for. -/
theorem numericEscape_free (n : Nat) : numericEscape n ≠ [] ∧ '"' ∉ numericEscape n := by
  have hplain : Plain (numericEscape n) := by
    rw [numericEscape]
    split
    · simp [plain_padded]
    · split <;> simp [plain_padded]
  refine ⟨?_, List.count_eq_zero.mp hplain.count_quote⟩
  rw [numericEscape]
  split
  · simp
  · split <;> simp

/-- A code point other than the quote is turned by `quotedChar` into something that is not empty and
holds no quotes. -/
theorem quotedChar_free (quote : Char) {c : Char} (hc : c ≠ '"') :
    quotedChar quote c ≠ [] ∧ '"' ∉ quotedChar quote c := by
  rw [quotedChar]
  split
  · simpa using Ne.symm hc
  · split
    · decide
    · split
      · decide
      · split
        · decide
        · split
          · simpa using Ne.symm hc
          · exact numericEscape_free c.toNat

/-- A quote between single quotes is left by `quotedChar` as it is. -/
theorem quotedChar_quote : quotedChar '\'' '"' = ['"'] := by
  decide

/-- What stands between single quotes keeps its `tripleQuotes`. -/
theorem tripleQuotes_between_single {f : Char → Text} (t : Text) (hquote : f '"' = ['"'])
    (hother : ∀ c, c ≠ '"' → f c ≠ [] ∧ '"' ∉ f c) :
    tripleQuotes ('\'' :: t.flatMap f ++ ['\'']) = tripleQuotes t := by
  have hsingle : ('\'' : Char) ≠ '"' := by decide
  have hend : tripleQuotes ([] : Text) = 0 := by decide
  rw [tripleQuotes_append_cons _ hsingle, tripleQuotes_cons hsingle, hend,
    tripleQuotes_flatMap hquote hother]
  rfl

/-- Two quotes around a text that becomes something without quotes make no `tripleQuotes`. -/
theorem tripleQuotes_between_double {f : Char → Text} {t : Text} (h : '"' ∉ t)
    (hother : ∀ c, c ≠ '"' → f c ≠ [] ∧ '"' ∉ f c) :
    tripleQuotes ('"' :: t.flatMap f ++ ['"']) = 0 := by
  have hfree : List.count '"' (t.flatMap f) = 0 := by
    rw [List.count_eq_zero]
    intro hmem
    obtain ⟨c, hc, hmem⟩ := List.mem_flatMap.mp hmem
    have hne : c ≠ '"' := fun heq => h (heq ▸ hc)
    exact (hother c hne).2 hmem
  refine tripleQuotes_of_count_le ?_
  simp [hfree]

/-- The `enclosingQuote` of a text is the double one only if the text holds none. -/
theorem enclosingQuote_cases (t : Text) :
    enclosingQuote t = '\'' ∨ enclosingQuote t = '"' ∧ '"' ∉ t := by
  rw [enclosingQuote]
  split
  · next h =>
    rw [Bool.and_eq_true, Bool.not_eq_true', List.contains_eq_mem, List.contains_eq_mem,
      decide_eq_false_iff_not] at h
    exact Or.inr ⟨rfl, h.2⟩
  · exact Or.inl rfl

/-- The `quoted` form of a text without triple quotes holds none. -/
theorem tripleQuotes_quoted {t : Text} (h : tripleQuotes t = 0) : tripleQuotes (quoted t) = 0 := by
  simp only [quoted]
  rcases enclosingQuote_cases t with hquote | ⟨hquote, hfree⟩
  · rw [hquote, tripleQuotes_between_single t quotedChar_quote fun c => quotedChar_free '\'', h]
  · -- The enclosing quotes are the only ones.
    rw [hquote]
    exact tripleQuotes_between_double hfree fun c => quotedChar_free '"'

/-! ### What stands in a literal -/

/-- What literals are written with besides the code points of their texts, the `numeralChars` among
it. -/
def literalChars : Text := "NoneTrueFalse[](), '\"\\xuUrt" ++ numeralChars

/-- An escape by number is written with the `literalChars`. -/
theorem mem_literalChars_of_numericEscape (n : Nat) : ∀ d ∈ numericEscape n, d ∈ literalChars := by
  have hpadded : ∀ width, ∀ d ∈ padded 16 width n, d ∈ literalChars := fun width d hd =>
    List.mem_append_right _ (numeral_padded 16 width n d hd)
  rw [numericEscape]
  split
  · exact List.forall_mem_append.mpr ⟨by decide, hpadded 2⟩
  · split
    · exact List.forall_mem_append.mpr ⟨by decide, hpadded 4⟩
    · exact List.forall_mem_append.mpr ⟨by decide, hpadded 8⟩

/-- A code point is shown as itself, or what it becomes is written with the `literalChars`. -/
theorem quotedChar_cases {quote : Char} (hquote : quote ∈ literalChars) (c : Char) :
    (quotedChar quote c = [c] ∧ isPrintable c = true) ∨
      ((∀ d ∈ quotedChar quote c, d ∈ literalChars) ∧
        (c ∈ literalChars ∨ isPrintable c = false)) := by
  rw [quotedChar]
  -- The tests are made in the order of the definition, and each kind is written in its own way.
  split
  · next h =>
    have hc : c ∈ literalChars := by
      rw [Bool.or_eq_true, decide_eq_true_eq, decide_eq_true_eq] at h
      rcases h with rfl | rfl
      · decide
      · exact hquote
    exact .inr ⟨List.forall_mem_cons.mpr ⟨by decide, by simpa using hc⟩, .inl hc⟩
  split
  · next h => exact .inr ⟨by decide, .inr (by rw [h]; decide)⟩
  split
  · next h => exact .inr ⟨by decide, .inr (by rw [h]; decide)⟩
  split
  · next h => exact .inr ⟨by decide, .inr (by rw [h]; decide)⟩
  split
  · next h => exact .inl ⟨rfl, h⟩
  · next h =>
    exact .inr ⟨mem_literalChars_of_numericEscape c.toNat, .inr (Bool.eq_false_iff.mpr h)⟩

/-- A code point outside the `literalChars` stands in what a code point becomes just where it is the
one and may be shown. -/
theorem mem_quotedChar_iff {quote c d : Char} (hquote : quote ∈ literalChars)
    (hd : d ∉ literalChars) : d ∈ quotedChar quote c ↔ d = c ∧ isPrintable d = true := by
  rcases quotedChar_cases hquote c with ⟨hself, hshown⟩ | ⟨hwritten, hc⟩
  · rw [hself, List.mem_singleton]
    exact ⟨fun heq => ⟨heq, heq ▸ hshown⟩, fun h => h.1⟩
  · refine iff_of_false (fun hmem => hd (hwritten d hmem)) ?_
    rintro ⟨rfl, hshown⟩
    rcases hc with hc | hc
    · exact hd hc
    · rw [hshown] at hc
      cases hc

/-- A code point outside the `literalChars` stands in a literal just where it stands in the text and
may be shown. -/
theorem mem_quoted_iff {d : Char} (hd : d ∉ literalChars) (t : Text) :
    d ∈ quoted t ↔ d ∈ t ∧ isPrintable d = true := by
  have hquote : enclosingQuote t ∈ literalChars := by
    rcases enclosingQuote_cases t with hquote | ⟨hquote, -⟩ <;> rw [hquote] <;> decide
  have hends : d ≠ enclosingQuote t := fun heq => hd (heq ▸ hquote)
  have hbody : d ∈ t.flatMap (quotedChar (enclosingQuote t)) ↔ d ∈ t ∧ isPrintable d = true := by
    simp only [List.mem_flatMap, mem_quotedChar_iff hquote hd]
    constructor
    · rintro ⟨c, hc, rfl, hshown⟩
      exact ⟨hc, hshown⟩
    · rintro ⟨hmem, hshown⟩
      exact ⟨d, hmem, rfl, hshown⟩
  simp only [quoted, List.cons_append, List.mem_cons, List.mem_append, List.not_mem_nil, or_false,
    hends, false_or, hbody]

/-- The code points of a byte string, one for each byte, as `quotedBytes` writes them. -/
def ofBytes (bytes : Bytes) : Text := bytes.map fun b => Char.ofNat b.toNat

/-- A code point inside a byte literal, by `quotedChar` or as a number. The literal is ASCII
throughout. -/
def quotedByteChar (quote c : Char) : Text :=
  if c.toNat < 128 then quotedChar quote c else numericEscape c.toNat

/-- A byte is quoted by `quotedByte` like its code point. -/
theorem flatMap_quotedByte (quote : Char) (bytes : Bytes) :
    bytes.flatMap (quotedByte quote) = (ofBytes bytes).flatMap (quotedByteChar quote) := by
  have hbyte : ∀ b : UInt8, (Char.ofNat b.toNat).toNat = b.toNat := by
    intro b
    have hbound := b.toNat_lt
    exact toNat_charOfNat (Or.inl (by omega))
  rw [ofBytes, List.flatMap_map]
  congr 1
  funext b
  rw [quotedByte, quotedByteChar, hbyte]

/-- The `quotedBytes` of a byte string without triple quotes hold none. -/
theorem tripleQuotes_quotedBytes {bytes : Bytes} (h : tripleQuotes (ofBytes bytes) = 0) :
    tripleQuotes (quotedBytes bytes) = 0 := by
  -- No other byte is shown by quotes, so the quotes of the literal are those of the string.
  have hother : ∀ quote c, c ≠ '"' →
      quotedByteChar quote c ≠ [] ∧ '"' ∉ quotedByteChar quote c := by
    intro quote c hc
    rw [quotedByteChar]
    split
    · exact quotedChar_free quote hc
    · exact numericEscape_free c.toNat
  have hmark : ('b' : Char) ≠ '"' := by decide
  have hquoted : quotedBytes bytes = 'b' :: (enclosingQuote (ofBytes bytes) ::
      (ofBytes bytes).flatMap (quotedByteChar (enclosingQuote (ofBytes bytes))) ++
        [enclosingQuote (ofBytes bytes)]) := by
    rw [← flatMap_quotedByte]
    rfl
  rw [hquoted, tripleQuotes_cons hmark]
  -- Between single quotes the double ones stay single, and between double ones there are none.
  rcases enclosingQuote_cases (ofBytes bytes) with hquote | ⟨hquote, hfree⟩
  · rw [hquote, tripleQuotes_between_single _ (by decide) (hother '\''), h]
  · rw [hquote]
    exact tripleQuotes_between_double hfree (hother '"')

end TypedOps.Text
