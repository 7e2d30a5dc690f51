import TypedOps.Number.MachineInt

/-!
# `TypedOps.Proofs.Number.MachineInt`: integers come back from their patterns

An integer that fits is what its pattern stands for (`signed_pattern`), also where it is stored with
more bits than it is read with: the low bits of a wide pattern are the narrow pattern.
-/

set_option autoImplicit false

namespace TypedOps.MachineInt

/-- There are `patterns` of any number of bits, if only the empty one. -/
theorem patterns_pos (bits : Nat) : 0 < patterns bits := Nat.pow_pos (by decide)

/-- One more bit doubles the number of `patterns`. -/
theorem patterns_succ (bits : Nat) : patterns (bits + 1) = 2 * patterns bits := by
  rw [patterns, patterns, Nat.pow_eq, Nat.pow_eq, Nat.pow_succ, Nat.mul_comm]

/-- The number of `patterns` of fewer bits divides that of more. -/
theorem patterns_dvd {bits wide : Nat} (h : bits ≤ wide) : patterns bits ∣ patterns wide :=
  Nat.pow_dvd_pow 2 h

/-- A `pattern` of some bits is less than the number of such patterns. -/
theorem pattern_lt (bits : Nat) (i : Int) : pattern bits i < patterns bits := by
  have hpos : (0 : Int) < patterns bits := Int.natCast_pos.mpr (patterns_pos bits)
  have hlt := Int.emod_lt_of_pos i hpos
  have hnonneg := Int.emod_nonneg i (Int.ne_of_gt hpos)
  rw [pattern]
  omega

/-- The low bits of a `pattern` are the remainder of the integer that it stands for. -/
theorem pattern_mod {bits wide : Nat} (hwide : bits ≤ wide) (i : Int) :
    ((pattern wide i % patterns bits : Nat) : Int) = i % patterns bits := by
  have hne : (patterns wide : Int) ≠ 0 :=
    Int.natCast_ne_zero.mpr (Nat.ne_of_gt (patterns_pos wide))
  have hdvd : (patterns bits : Int) ∣ patterns wide :=
    Int.natCast_dvd_natCast.mpr (patterns_dvd hwide)
  rw [Int.natCast_emod, pattern, Int.toNat_of_nonneg (Int.emod_nonneg i hne),
    Int.emod_emod_of_dvd i hdvd]

/-- An integer that fits into some bits is what the low bits of its `pattern` stand for, when they
are `signed`. -/
theorem signed_pattern {bits wide : Nat} (hbits : 0 < bits) (hwide : bits ≤ wide) {i : Int}
    (hi : fits bits i = true) : signed bits (pattern wide i) = i := by
  obtain ⟨bits, rfl⟩ : ∃ k, bits = k + 1 := ⟨bits - 1, by omega⟩
  have hlow := pattern_mod hwide i
  rw [fits, Bool.and_eq_true, decide_eq_true_eq, decide_eq_true_eq] at hi
  have hdouble := patterns_succ bits
  simp only [signed, Nat.add_sub_cancel] at hi ⊢
  -- A negative integer stands for its remainder less the number of patterns.
  by_cases hneg : i < 0
  · have hrem : i % patterns (bits + 1) = i + patterns (bits + 1) := by
      rw [← Int.add_emod_right, Int.emod_eq_of_lt] <;> omega
    rw [if_neg (by omega)]
    omega
  · have hrem : i % patterns (bits + 1) = i := Int.emod_eq_of_lt (by omega) (by omega)
    rw [if_pos (by omega)]
    omega

example : pattern 64 (-1) = 18446744073709551615 ∧ signed 32 (pattern 64 (-1)) = -1 := by decide

end TypedOps.MachineInt
