import TypedOps.Proofs.Text.QuoteRuns
import TypedOps.Text.LetterCase

/-!
# `TypedOps.Proofs.Text.Plain`: texts without quotes and line feeds

A plain text holds neither a quote nor a line feed, so it can stand in a line of code
or in a docstring without ending either. Identifiers are plain, numbers are, and
whatever is joined from plain pieces is. Of a number more is known: it is written
with few code points (`Numeral`).

What is used of an identifier is in `IsIdentifier`. It allows more than a language
does: which letters beyond ASCII may stand in a name does not matter here.
-/

set_option autoImplicit false

namespace TypedOps.Text

/-- A text made of what may stand in an identifier: letters, digits and low lines, or code points
beyond ASCII. Such a text is `Plain`. -/
def IsIdentifier (t : Text) : Prop := ∀ c ∈ t, c.isAlphanum ∨ c = '_' ∨ 128 ≤ c.toNat

/-- A text without quotes and line feeds: it can neither end a literal nor a line. -/
def Plain (t : Text) : Prop := ∀ c ∈ t, c ≠ '"' ∧ c ≠ '\n'

-- Both are decided along the text. Deciding them for all code points would not end.
instance (t : Text) : Decidable (IsIdentifier t) :=
  List.decidableBAll (fun c : Char => c.isAlphanum ∨ c = '_' ∨ 128 ≤ c.toNat) t

instance (t : Text) : Decidable (Plain t) :=
  List.decidableBAll (fun c : Char => c ≠ '"' ∧ c ≠ '\n') t

/-- Two texts are `Plain` exactly when both together are. -/
@[simp] theorem plain_append (s t : Text) : Plain (s ++ t) ↔ Plain s ∧ Plain t := by
  simp only [Plain, List.forall_mem_append]

/-- A text is `Plain` exactly when its first code point and the rest are. -/
@[simp] theorem plain_cons (c : Char) (t : Text) :
    Plain (c :: t) ↔ (c ≠ '"' ∧ c ≠ '\n') ∧ Plain t := by
  simp only [Plain, List.forall_mem_cons]

/-- The empty text is `Plain`, as it holds nothing. -/
@[simp] theorem plain_nil : Plain [] := by
  simp [Plain]

/-- Pieces that are `Plain`, with a plain separator between them, are plain when they are joined. -/
theorem plain_join {sep : Text} {pieces : List Text} (hsep : Plain sep)
    (h : ∀ piece ∈ pieces, Plain piece) : Plain (join sep pieces) := by
  induction pieces with
  | nil => simp [join]
  | cons piece pieces ih =>
    have hpiece := h piece List.mem_cons_self
    have ih := ih fun p hp => h p (List.mem_cons_of_mem _ hp)
    cases pieces with
    | nil => simpa [join] using hpiece
    | cons next rest => simp [join, hpiece, hsep, ih]

/-- A text that is `IsIdentifier` holds no ASCII code point other than letters, digits and low
lines. -/
theorem IsIdentifier.not_mem {t : Text} {c : Char} (h : IsIdentifier t)
    (hc : ¬(c.isAlphanum ∨ c = '_' ∨ 128 ≤ c.toNat)) : c ∉ t := fun hmem => hc (h c hmem)

/-- A text that is `IsIdentifier` is plain, for quotes and line feeds are of ASCII. -/
theorem IsIdentifier.plain {t : Text} (h : IsIdentifier t) : Plain t := by
  intro c hc
  constructor <;> rintro rfl <;> exact absurd (h _ hc) (by decide)

/-- A `Plain` text holds no quote. -/
theorem Plain.count_quote {t : Text} (h : Plain t) : List.count '"' t = 0 :=
  List.count_eq_zero.mpr fun hmem => (h _ hmem).1 rfl

/-- A `Plain` text holds no triple quote, having no quote at all. -/
theorem Plain.tripleQuotes {t : Text} (h : Plain t) : tripleQuotes t = 0 :=
  tripleQuotes_of_count_le (by rw [h.count_quote]; omega)

/-- A `Plain` text stands on one line. -/
theorem Plain.oneLine {t : Text} (h : Plain t) : OneLine t := fun hmem => (h _ hmem).2 rfl

/-- A valid number is the number of its code point. -/
theorem toNat_charOfNat {n : Nat} (h : n.isValidChar) : (Char.ofNat n).toNat = n := by
  rw [Char.ofNat, dif_pos h]
  rfl

set_option maxRecDepth 8000 in
/-- Beyond ASCII every lower-case form has a valid number, and none lies below the letter `a`. -/
theorem loweringShifts_valid :
    ∀ run ∈ loweringShifts, (97 : Int) ≤ run.1 + run.2.2.2 ∧
      (run.2.1 + run.2.2.2 < 0xD800 ∨
        0xE000 ≤ run.1 + run.2.2.2 ∧ run.2.1 + run.2.2.2 < 0x110000) := by
  decide

/-- A code point of a lower-case form is the code point itself, which is then no capital of ASCII,
or lies from the letter `a` on. -/
theorem mem_lowered {c d : Char} (h : d ∈ lowered c) :
    d = c ∧ ¬(65 ≤ c.toNat ∧ c.toNat ≤ 90) ∨ 97 ≤ d.toNat := by
  simp only [lowered] at h
  split at h
  · split at h
    · next hcapital =>
      have hvalid : (c.toNat + 32).isValidChar := .inl (by omega)
      rw [List.mem_singleton.mp h, toNat_charOfNat hvalid]
      exact .inr (by omega)
    · next hsmall => exact .inl ⟨List.mem_singleton.mp h, hsmall⟩
  · next hbeyond =>
    split at h
    · have hboth : 97 ≤ 'i'.toNat ∧ 97 ≤ (Char.ofNat 0x307).toNat := by decide
      rcases List.mem_cons.mp h with rfl | h
      · exact .inr hboth.1
      · rw [List.mem_singleton.mp h]
        exact .inr hboth.2
    · split at h
      · next first last step shift hfind =>
        -- A run of the table shifts each member by the same amount, so the first and the
        -- last member have the lowest and the highest form.
        have hrange := loweringShifts_valid _ (List.mem_of_find?_eq_some hfind)
        have hrun := List.find?_some hfind
        simp only [Bool.and_eq_true, decide_eq_true_eq] at hrun
        simp only at hrange
        have hvalid : ((c.toNat : Int) + shift).toNat.isValidChar := by
          rcases hrange.2 with hlow | hhigh
          · exact .inl (by omega)
          · exact .inr (by omega)
        rw [List.mem_singleton.mp h, toNat_charOfNat hvalid]
        exact .inr (by omega)
      · exact .inl ⟨List.mem_singleton.mp h, by omega⟩

/-- Below the letter `a` only the code point itself can be in its lower-case form. -/
theorem eq_of_mem_lowered {c d : Char} (h : d ∈ lowered c) (hlow : d.toNat < 97) : d = c := by
  rcases mem_lowered h with ⟨heq, -⟩ | hletter
  · exact heq
  · omega

/-- The `lowered` form of a plain code point is plain. -/
theorem plain_lowered {c : Char} (hc : c ≠ '"' ∧ c ≠ '\n') : Plain (lowered c) := by
  intro d hd
  constructor
  · rintro rfl
    exact hc.1 (eq_of_mem_lowered hd (by decide)).symm
  · rintro rfl
    exact hc.2 (eq_of_mem_lowered hd (by decide)).symm

/-! ### Numbers -/

/-- What a `Numeral` is written with: digits, a star where a base has more than sixteen, signs, the
point, and the letters of exponents, of infinity and of what is no number. -/
def numeralChars : Text := "0123456789abcdef*+-.in"

/-- A text that is written with the `numeralChars` alone. -/
def Numeral (t : Text) : Prop := ∀ c ∈ t, c ∈ numeralChars

instance (t : Text) : Decidable (Numeral t) :=
  inferInstanceAs (Decidable (∀ c ∈ t, c ∈ numeralChars))

/-- Two texts are each a `Numeral` exactly when both together are. -/
@[simp] theorem numeral_append (s t : Text) : Numeral (s ++ t) ↔ Numeral s ∧ Numeral t :=
  List.forall_mem_append

/-- A text is a numeral exactly when its first code point is one of the `numeralChars` and the rest
is a numeral. -/
@[simp] theorem numeral_cons (c : Char) (t : Text) :
    Numeral (c :: t) ↔ c ∈ numeralChars ∧ Numeral t :=
  List.forall_mem_cons

/-- The empty text is a `Numeral`, as it holds nothing else. -/
@[simp] theorem numeral_nil : Numeral [] := by
  simp [Numeral]

/-- A part of a `Numeral` is a numeral. -/
theorem Numeral.of_isInfix {s t : Text} (ht : Numeral t) (h : s <:+: t) : Numeral s :=
  fun c hc => ht c (h.subset hc)

/-- Copies of one of the `numeralChars` are a numeral. -/
theorem numeral_fill (n : Nat) {c : Char} (hc : c ∈ numeralChars) : Numeral (fill n c) := by
  intro d hd
  rw [List.eq_of_mem_replicate hd]
  exact hc

/-- None of the `numeralChars` is a quote or a line feed, so numerals are plain. -/
theorem Numeral.plain {t : Text} (h : Numeral t) : Plain t := by
  have hchars : ∀ c ∈ numeralChars, c ≠ '"' ∧ c ≠ '\n' := by decide
  exact fun c hc => hchars c (h c hc)

/-- What stands for a number in any base, by `toDigits`, is made of the sixteen digits, and of a
star where a base has more. -/
theorem exists_digitChar_of_mem_toDigits {base n : Nat} {c : Char}
    (h : c ∈ Nat.toDigits base n) : ∃ d, c = Nat.digitChar d := by
  -- The digits found so far are an argument, so what holds of them is carried along.
  have hcore : ∀ fuel n digits, (∀ c ∈ digits, ∃ d, c = Nat.digitChar d) →
      ∀ c ∈ Nat.toDigitsCore base fuel n digits, ∃ d, c = Nat.digitChar d := by
    intro fuel
    induction fuel with
    | zero =>
      intro n digits hdigits c hc
      rw [Nat.toDigitsCore] at hc
      exact hdigits c hc
    | succ fuel ih =>
      intro n digits hdigits c hc
      have hmore : ∀ c ∈ Nat.digitChar (n % base) :: digits, ∃ d, c = Nat.digitChar d :=
        List.forall_mem_cons.mpr ⟨⟨_, rfl⟩, hdigits⟩
      rw [Nat.toDigitsCore] at hc
      split at hc
      · exact hmore c hc
      · exact ih _ _ hmore c hc
  exact hcore _ _ [] (by simp) c h

/-- The `toDigits` of a number in any base are a numeral. -/
theorem numeral_toDigits (base n : Nat) : Numeral (Nat.toDigits base n) := by
  intro c hc
  obtain ⟨d, rfl⟩ := exists_digitChar_of_mem_toDigits hc
  rcases Nat.lt_or_ge d 16 with hd | hd
  · have hdigits : ∀ d < 16, Nat.digitChar d ∈ numeralChars := by decide
    exact hdigits d hd
  · have hstar : Nat.digitChar d = '*' := by
      simp only [Nat.digitChar]
      repeat rw [if_neg (by omega)]
    rw [hstar]
    decide

/-- What is `padded` is a numeral, the zeros in front being digits. -/
theorem numeral_padded (base width n : Nat) : Numeral (padded base width n) := by
  rw [padded, numeral_append]
  exact ⟨numeral_fill _ (by decide), numeral_toDigits base n⟩

/-- The text that `ofNat` gives of a natural number is a numeral. -/
theorem numeral_ofNat (n : Nat) : Numeral (ofNat n) := numeral_toDigits 10 n

/-- The text that `ofInt` gives of an integer is a numeral, the sign in front included. -/
theorem numeral_ofInt (i : Int) : Numeral (ofInt i) := by
  cases i with
  | ofNat n => exact numeral_ofNat n
  | negSucc n =>
    rw [ofInt, numeral_cons]
    exact ⟨by decide, numeral_ofNat (n + 1)⟩

/-- What is `padded` is plain, being a numeral. -/
theorem plain_padded (base width n : Nat) : Plain (padded base width n) :=
  (numeral_padded base width n).plain

/-- The text that `ofInt` gives of an integer is plain, being a numeral. -/
theorem plain_ofInt (i : Int) : Plain (ofInt i) := (numeral_ofInt i).plain

end TypedOps.Text
