import TypedOps.Proofs.Emit.ParameterNames
import TypedOps.Text.Alphanumeric

/-!
# `TypedOps.Proofs.Emit.AsciiNames`: names of ASCII letters, digits and low lines

What may stand in a name beyond ASCII is left open by `IsIdentifier`. Of ASCII names more is known:
each code point is a word character and none is white space (`IsAsciiName`), and methods and
parameters that are named after them have such names again.
-/

set_option autoImplicit false

namespace TypedOps.Text

/-- Whether a code point is a letter or a digit of ASCII or the low line. -/
def isAsciiWord (c : Char) : Bool := c.toNat < 128 && isWord c

/-- A name made of ASCII word characters only (`isAsciiWord`), and of at least one. Names in the
catalogs are of this kind. -/
def IsAsciiName (t : Text) : Prop := t ≠ [] ∧ ∀ c ∈ t, isAsciiWord c = true

instance (t : Text) : Decidable (IsAsciiName t) :=
  inferInstanceAs (Decidable (t ≠ [] ∧ ∀ c ∈ t, isAsciiWord c = true))

/-- The code points of an `IsAsciiName` by their numbers, in the form in which `omega` decides what
they cannot be. -/
theorem isAsciiWord_iff (c : Char) : isAsciiWord c = true ↔
    48 ≤ c.toNat ∧ c.toNat ≤ 57 ∨ 65 ≤ c.toNat ∧ c.toNat ≤ 90 ∨
      97 ≤ c.toNat ∧ c.toNat ≤ 122 ∨ c.toNat = 95 := by
  have hline : c = '_' ↔ c.toNat = 95 := Char.toNat_inj.symm
  simp only [isAsciiWord, isWord, isAlphanumeric, Bool.and_eq_true, Bool.or_eq_true,
    decide_eq_true_eq, beq_iff_eq, hline]
  constructor
  · intro h
    rw [if_pos h.1] at h
    simp only [Bool.or_eq_true, Bool.and_eq_true, decide_eq_true_eq] at h
    omega
  · intro h
    have hascii : c.toNat < 128 := by omega
    rw [if_pos hascii]
    simp only [Bool.or_eq_true, Bool.and_eq_true, decide_eq_true_eq]
    omega

/-- A word character of ASCII is none that `isBlank` accepts. -/
theorem isBlank_of_isAsciiWord {c : Char} (h : isAsciiWord c = true) : isBlank c = false := by
  have hrange := (isAsciiWord_iff c).mp h
  rw [Bool.eq_false_iff]
  simp only [isBlank, Bool.or_eq_true, Bool.and_eq_true, decide_eq_true_eq, beq_iff_eq, ne_eq]
  omega

/-- The `lowered` form of a word character of ASCII is made of such characters, so names stay names
when they are lowered. -/
theorem isAsciiWord_lowered {c d : Char} (hc : isAsciiWord c = true) (hd : d ∈ lowered c) :
    isAsciiWord d = true := by
  have hrange := (isAsciiWord_iff c).mp hc
  simp only [lowered] at hd
  rw [if_pos (by omega)] at hd
  split at hd
  · next hcapital =>
    have hvalid : (c.toNat + 32).isValidChar := .inl (by omega)
    rw [List.mem_singleton.mp hd, isAsciiWord_iff, toNat_charOfNat hvalid]
    omega
  · rw [List.mem_singleton.mp hd]
    exact hc

namespace IsAsciiName

variable {t : Text}

/-- A name of ASCII is an `IsIdentifier`, which all lemmas on identifiers can then be used for. -/
theorem isIdentifier (h : IsAsciiName t) : IsIdentifier t := by
  intro c hc
  have hrange := (isAsciiWord_iff c).mp (h.2 c hc)
  by_cases hline : c = '_'
  · exact .inr (.inl hline)
  · left
    have hother : c.toNat ≠ 95 := fun heq => hline (Char.toNat_inj.mp heq)
    -- The tests on letters and digits compare numbers of code points, which is made visible here
    -- for `omega`.
    show ((decide (c.val ≥ 'A'.val ∧ c.val ≤ 'Z'.val) ||
      (decide (c.val ≥ 'a'.val) && decide (c.val ≤ 'z'.val))) ||
      (decide (c.val ≥ '0'.val) && decide (c.val ≤ '9'.val))) = true
    simp only [Bool.or_eq_true, Bool.and_eq_true, decide_eq_true_eq, ge_iff_le,
      UInt32.le_iff_toNat_le]
    show ((65 ≤ c.toNat ∧ c.toNat ≤ 90) ∨ (97 ≤ c.toNat ∧ c.toNat ≤ 122)) ∨
      (48 ≤ c.toNat ∧ c.toNat ≤ 57)
    omega

/-- An `IsAsciiName` holds no white space, so cutting a line at blanks does not cut it. -/
theorem isBlank_eq_false (h : IsAsciiName t) : ∀ c ∈ t, isBlank c = false := fun c hc =>
  isBlank_of_isAsciiWord (h.2 c hc)

/-- An `IsAsciiName` holds nothing but word characters, so it is read as one word. -/
theorem isWord_eq_true (h : IsAsciiName t) : ∀ c ∈ t, isWord c = true := fun c hc =>
  (Bool.and_eq_true_iff.mp (h.2 c hc)).2

/-- An `IsAsciiName` with more word characters of ASCII behind it is still one. -/
theorem append {s : Text} (hs : IsAsciiName s) (ht : ∀ c ∈ t, isAsciiWord c = true) :
    IsAsciiName (s ++ t) :=
  ⟨by simp [hs.1], List.forall_mem_append.mpr ⟨hs.2, ht⟩⟩

/-- The parameter that `Naming.parameter` makes of a name of ASCII is a name of ASCII. -/
theorem parameter (h : IsAsciiName t) : IsAsciiName (Naming.parameter t) := by
  have hreadable : ∀ e ∈ Naming.readableNames, IsAsciiName e.2 := by decide
  rcases Naming.parameter_cases t with (hmem | ⟨-, heq⟩) | ⟨heq, -⟩
  · exact hreadable _ hmem
  · rw [heq]
    exact h.append (by decide)
  · rwa [heq]

/-- The method name that `Naming.method` makes of a name of ASCII is a name of ASCII. -/
theorem method (h : IsAsciiName t) : IsAsciiName (Naming.method t) := by
  constructor
  -- Lowering leaves something of every code point, so the method name is not empty.
  · have hsnake : Naming.snakeCase t ≠ [] := by
      obtain ⟨c, rest, rfl⟩ := List.exists_cons_of_ne_nil h.1
      have hlowered : lowered c ≠ [] := by
        have hrange := (isAsciiWord_iff c).mp (h.2 c List.mem_cons_self)
        simp only [lowered]
        rw [if_pos (by omega)]
        simp
      simp [Naming.snakeCase, Naming.snakeCaseFrom, hlowered]
    rw [Naming.method]
    split <;> simp [hsnake]
  · intro c hc
    rcases Naming.mem_method hc with rfl | ⟨d, hd, hlow⟩
    · decide
    · exact isAsciiWord_lowered (h.2 d hd) hlow

end IsAsciiName

end TypedOps.Text

namespace TypedOps

open Text (IsAsciiName)

/-- The names in an operation's signature are names of ASCII, each with `IsAsciiName`. -/
structure Operation.AsciiNames (op : Operation) : Prop where
  name : IsAsciiName op.name
  inputs : ∀ a ∈ op.inputs, IsAsciiName a.name
  outputs : ∀ a ∈ op.outputs, IsAsciiName a.name
  attributes : ∀ a ∈ op.attributes, IsAsciiName a.name

/-- An operation with names of ASCII is `WellNamed`: all of them are identifiers. -/
theorem Operation.AsciiNames.wellNamed {op : Operation} (h : op.AsciiNames) : op.WellNamed where
  name := h.name.isIdentifier
  inputs := fun a ha => (h.inputs a ha).isIdentifier
  outputs := fun a ha => (h.outputs a ha).isIdentifier
  attributes := fun a ha => (h.attributes a ha).isIdentifier

end TypedOps
