import Mathlib.Algebra.Order.Field.Basic
import Mathlib.Algebra.Order.Field.Power
import Mathlib.Data.Nat.Cast.Order.Field
import Mathlib.Data.Rat.Cast.Order
import Mathlib.Tactic.FieldSimp
import Mathlib.Tactic.Linarith
import Mathlib.Tactic.Positivity
import Mathlib.Tactic.Ring
import TypedOps.Number.Decimal

/-!
# `TypedOps.Proofs.Number.Grid`: rounding to a grid of powers

Numbers are rounded in two places, to a mantissa of so many bits and to a decimal of so many
digits, and in the same way: the exponent of the leading digit is found, the number is divided by
the power of the last digit that is kept, and the quotient is rounded. What that gives is stated
once, for any base and about rational numbers.

* `Magnitude`: the exponent of the leading digit. It is found from the lengths of a numerator and a
  denominator (`magnitude_floorLog2`, `magnitude_floorLog10`), and there is only one.
* `Rounded`: a whole number of steps, at most half a step away.
* `Rounded.abs_sub_le`: no number written with as many digits is nearer, whatever its exponent. One
  with finer steps is below the leading power, and that is a whole number of steps, too.
-/

set_option autoImplicit false

namespace TypedOps

/-! ### Quotients -/

/-- A `roundQuotient` is at most a half away from the exact quotient. -/
theorem abs_roundQuotient_sub_le (num : Nat) {den : Nat} (hden : 0 < den) :
    |(roundQuotient num den : ℚ) - num / den| ≤ 1 / 2 := by
  have hpos : (0 : ℚ) < den := Nat.cast_pos.mpr hden
  have hsplit : (num : ℚ) = den * (num / den : Nat) + (num % den : Nat) := by
    exact_mod_cast (Nat.div_add_mod num den).symm
  -- The exact quotient is the whole one and a rest below one, so rounding only has to compare the
  -- rest with a half.
  have hquotient : (num : ℚ) / den = (num / den : Nat) + (num % den : Nat) / (den : ℚ) := by
    rw [hsplit]
    field_simp
  have hlt : num % den < den := Nat.mod_lt num hden
  have hrest : 0 ≤ ((num % den : Nat) : ℚ) / den := by positivity
  rw [hquotient, roundQuotient]
  simp only [Bool.or_eq_true, decide_eq_true_eq, Bool.and_eq_true, beq_iff_eq]
  split
  · next hdown =>
    have hhalf : ((num % den : Nat) : ℚ) / den ≤ 1 / 2 := by
      rw [div_le_div_iff₀ hpos two_pos]
      have hnat : num % den * 2 ≤ 1 * den := by omega
      exact_mod_cast hnat
    rw [abs_le]
    constructor <;> linarith
  · next hup =>
    have hhalf : 1 / 2 ≤ ((num % den : Nat) : ℚ) / den := by
      rw [div_le_div_iff₀ two_pos hpos]
      have hnat : 1 * den ≤ num % den * 2 := by omega
      exact_mod_cast hnat
    have hone : ((num % den : Nat) : ℚ) / den < 1 := by
      rw [div_lt_one hpos]
      exact_mod_cast hlt
    rw [abs_le]
    push_cast
    constructor <;> linarith

/-- A whole number that is at most a half away is a nearest one. -/
theorem abs_sub_le_of_half {x : ℚ} {n : ℤ} (h : |n - x| ≤ 1 / 2) (m : ℤ) :
    |n - x| ≤ |m - x| := by
  by_cases hm : m = n
  · rw [hm]
  · have hstep : (1 : ℚ) ≤ |(m : ℚ) - n| := by
      exact_mod_cast Int.one_le_abs (sub_ne_zero.mpr hm)
    have htriangle := abs_sub_le (m : ℚ) x n
    rw [abs_sub_comm x] at htriangle
    linarith

/-- Common factors of a fraction make no difference to its `roundQuotient`. -/
theorem roundQuotient_congr {num den num' den' : Nat} (hden : 0 < den) (hden' : 0 < den')
    (h : num * den' = num' * den) : roundQuotient num den = roundQuotient num' den' := by
  -- Both comparisons that rounding makes are unchanged when the two numbers are scaled.
  have hscale : ∀ {c : Nat} (a b : Nat), 0 < c →
      roundQuotient (c * a) (c * b) = roundQuotient a b := by
    intro c a b hc
    have hless : 2 * (c * (a % b)) < c * b ↔ 2 * (a % b) < b := by
      rw [Nat.mul_left_comm, Nat.mul_lt_mul_left hc]
    have hsame : 2 * (c * (a % b)) = c * b ↔ 2 * (a % b) = b := by
      rw [Nat.mul_left_comm, Nat.mul_right_inj hc.ne']
    simp only [roundQuotient, Nat.mul_div_mul_left _ _ hc, Nat.mul_mod_mul_left,
      Bool.or_eq_true, decide_eq_true_eq, Bool.and_eq_true, beq_iff_eq, hless, hsame]
  -- Both fractions are expanded to the same denominator.
  calc roundQuotient num den = roundQuotient (den' * num) (den' * den) := (hscale _ _ hden').symm
    _ = roundQuotient (den * num') (den * den') := by
      rw [Nat.mul_comm den' num, h, Nat.mul_comm num' den, Nat.mul_comm den' den]
    _ = roundQuotient num' den' := hscale _ _ hden

/-! ### Fractions divided by a power -/

/-- The fraction `num / den` divided by `b ^ k`. -/
def scaled (b num den : Nat) (k : Int) : Nat × Nat :=
  if 0 ≤ k then (num, den * b ^ k.toNat) else (num * b ^ (-k).toNat, den)

section
variable {b : Nat}

/-- The denominator of a `scaled` fraction stays positive. -/
theorem scaled_snd_pos (hbase : 0 < b) (num : Nat) {den : Nat} (hden : 0 < den) (k : Int) :
    0 < (scaled b num den k).2 := by
  rw [scaled]
  split
  · exact Nat.mul_pos hden (Nat.pow_pos hbase)
  · exact hden

/-- The value of a `scaled` fraction is that of the fraction, divided by the power. -/
theorem scaled_div (b num den : Nat) (k : Int) :
    ((scaled b num den k).1 : ℚ) / (scaled b num den k).2 = num / den / (b : ℚ) ^ k := by
  rw [scaled]
  split
  · next hk =>
    obtain ⟨n, rfl⟩ := Int.eq_ofNat_of_zero_le hk
    show (num : ℚ) / (den * b ^ n : Nat) = _
    rw [Nat.cast_mul, Nat.cast_pow, zpow_natCast, div_div]
  · next hk =>
    obtain ⟨n, rfl⟩ : ∃ n : ℕ, k = -n := ⟨(-k).toNat, by omega⟩
    rw [neg_neg, Int.toNat_natCast, Nat.cast_mul, Nat.cast_pow, zpow_neg, zpow_natCast,
      div_inv_eq_mul, mul_div_right_comm]

/-! ### Leading digits -/

/-- The exponent of the leading digit of a positive number, in base `b`. -/
structure Magnitude (b : Nat) (x : ℚ) (k : ℤ) : Prop where
  le : (b : ℚ) ^ k ≤ x
  lt : x < (b : ℚ) ^ (k + 1)

/-- A number with a `Magnitude` is positive, for its leading digit is. -/
theorem Magnitude.pos (hbase : 0 < b) {x : ℚ} {k : ℤ} (h : Magnitude b x k) : 0 < x :=
  (zpow_pos (Nat.cast_pos.mpr hbase) k).trans_le h.le

/-- A number has one `Magnitude` only, the place of its leading digit. -/
theorem Magnitude.unique (hbase : 1 < b) {x : ℚ} {k l : ℤ} (hk : Magnitude b x k)
    (hl : Magnitude b x l) : k = l := by
  have hone : (1 : ℚ) < b := Nat.one_lt_cast.mpr hbase
  have hkl : k < l + 1 := (zpow_lt_zpow_iff_right₀ hone).mp (hk.le.trans_lt hl.lt)
  have hlk : l < k + 1 := (zpow_lt_zpow_iff_right₀ hone).mp (hl.le.trans_lt hk.lt)
  omega

/-- Dividing two numbers takes the difference of the exponents that are their `Magnitude`s, or one
less. -/
theorem Magnitude.div (hbase : 1 < b) {x y : ℚ} {i j : ℤ} (hx : Magnitude b x i)
    (hy : Magnitude b y j) :
    Magnitude b (x / y) (if (b : ℚ) ^ (i - j) ≤ x / y then i - j else i - j - 1) := by
  have hpos : (0 : ℚ) < b := Nat.cast_pos.mpr (by omega)
  have hypos : 0 < y := hy.pos (by omega)
  -- The quotient is less than one unit above the difference of the exponents, and at least one
  -- below it.
  have hupper : x / y < (b : ℚ) ^ (i - j + 1) := by
    rw [div_lt_iff₀ hypos]
    calc x < (b : ℚ) ^ (i + 1) := hx.lt
      _ = (b : ℚ) ^ (i - j + 1) * (b : ℚ) ^ j := by
        rw [← zpow_add₀ hpos.ne']
        congr 1
        omega
      _ ≤ (b : ℚ) ^ (i - j + 1) * y := mul_le_mul_of_nonneg_left hy.le (zpow_pos hpos _).le
  have hlower : (b : ℚ) ^ (i - j - 1) ≤ x / y := by
    rw [le_div_iff₀ hypos]
    calc (b : ℚ) ^ (i - j - 1) * y ≤ (b : ℚ) ^ (i - j - 1) * (b : ℚ) ^ (j + 1) :=
          mul_le_mul_of_nonneg_left hy.lt.le (zpow_pos hpos _).le
      _ = (b : ℚ) ^ i := by
        rw [← zpow_add₀ hpos.ne']
        congr 1
        omega
      _ ≤ x := hx.le
  split
  · next hreached => exact ⟨hreached, hupper⟩
  · next hreached => exact ⟨hlower, by rw [sub_add_cancel]; exact not_le.mp hreached⟩

/-- Whether a power is reached by a fraction is seen from the `scaled` fraction. -/
theorem scaled_snd_le_fst_iff (hbase : 0 < b) (num : Nat) {den : Nat} (hden : 0 < den)
    (k : Int) : (scaled b num den k).2 ≤ (scaled b num den k).1 ↔
      (b : ℚ) ^ k ≤ num / den := by
  have hpos : (0 : ℚ) < (scaled b num den k).2 :=
    Nat.cast_pos.mpr (scaled_snd_pos hbase num hden k)
  rw [← Nat.cast_le (α := ℚ), ← one_le_div₀ hpos, scaled_div,
    one_le_div₀ (zpow_pos (Nat.cast_pos.mpr hbase) k)]

/-- The whole quotient of the `scaled` fraction is the number of whole steps below the fraction. -/
theorem scaled_floor (hbase : 0 < b) (num : Nat) {den : Nat} (hden : 0 < den) (k : Int) :
    (((scaled b num den k).1 / (scaled b num den k).2 : Nat) : ℚ) * (b : ℚ) ^ k ≤
        num / den ∧
      (num : ℚ) / den <
        (((scaled b num den k).1 / (scaled b num den k).2 + 1 : Nat) : ℚ) *
          (b : ℚ) ^ k := by
  have hstep : (0 : ℚ) < (b : ℚ) ^ k := zpow_pos (Nat.cast_pos.mpr hbase) k
  have hpos := scaled_snd_pos hbase num hden k
  rw [← le_div_iff₀ hstep, ← div_lt_iff₀ hstep, ← scaled_div]
  refine ⟨Nat.cast_div_le, ?_⟩
  rw [div_lt_iff₀ (Nat.cast_pos.mpr hpos)]
  exact_mod_cast Nat.lt_mul_of_div_lt (Nat.lt_succ_self _) hpos

end

/-- The exponent of the leading bit of a number is its `log2`. -/
theorem magnitude_log2 {n : Nat} (hn : n ≠ 0) : Magnitude 2 n n.log2 := by
  constructor
  · rw [zpow_natCast]
    exact_mod_cast Nat.log2_self_le hn
  · rw [← Nat.cast_succ, zpow_natCast]
    exact_mod_cast Nat.lt_log2_self

/-- The `Magnitude` of a number in decimal form is one less than the number of its digits. -/
theorem magnitude_digitCount {n : Nat} (hn : n ≠ 0) :
    Magnitude 10 n ((Floating.digitCount n : ℤ) - 1) := by
  -- The number of digits is one more than the exponent of the first of them.
  obtain ⟨d, hd⟩ : ∃ d, Floating.digitCount n = d + 1 :=
    Nat.exists_eq_succ_of_ne_zero (List.length_pos_of_ne_nil Nat.toDigits_ne_nil).ne'
  have hupper : n < 10 ^ (d + 1) :=
    (Nat.length_toDigits_le_iff (by decide) (Nat.succ_pos d)).mp hd.le
  have hlower : 10 ^ d ≤ n := by
    by_cases hzero : d = 0
    · rw [hzero]
      exact Nat.one_le_iff_ne_zero.mpr hn
    · -- With one digit less there would be no room for the number.
      refine Nat.le_of_not_lt fun hlt => ?_
      have hfewer := (Nat.length_toDigits_le_iff (by decide) (Nat.pos_of_ne_zero hzero)).mpr hlt
      rw [Floating.digitCount] at hd
      omega
  rw [hd, Nat.cast_succ, add_sub_cancel_right]
  constructor
  · rw [zpow_natCast]
    exact_mod_cast hlower
  · rw [← Nat.cast_succ, zpow_natCast]
    exact_mod_cast hupper

/-- The power of two that `floorLog2` finds is the largest one that is at most the fraction. -/
theorem magnitude_floorLog2 {num den : Nat} (hnum : num ≠ 0) (hden : den ≠ 0) :
    Magnitude 2 (num / den) (Floating.floorLog2 num den) := by
  have hfloor : Floating.floorLog2 num den =
      if (scaled 2 num den (num.log2 - den.log2)).2 ≤ (scaled 2 num den (num.log2 - den.log2)).1
      then (num.log2 : ℤ) - den.log2 else (num.log2 : ℤ) - den.log2 - 1 := by
    simp only [Floating.floorLog2, scaled]
    by_cases hk : 0 ≤ (num.log2 : ℤ) - den.log2
    · simp only [if_pos hk, Nat.pow_eq]
    · simp only [if_neg hk, Nat.pow_eq]
  have hdiv := (magnitude_log2 hnum).div (by decide) (magnitude_log2 hden)
  rw [hfloor]
  simpa only [scaled_snd_le_fst_iff (b := 2) (by decide) num (Nat.pos_of_ne_zero hden)] using
    hdiv

/-- The power of ten that `floorLog10` finds is the largest one that is at most the fraction. -/
theorem magnitude_floorLog10 {num den : Nat} (hnum : num ≠ 0) (hden : den ≠ 0) :
    Magnitude 10 (num / den) (Floating.floorLog10 num den) := by
  let k : ℤ := (Floating.digitCount num : ℤ) - Floating.digitCount den
  have hfloor : Floating.floorLog10 num den =
      if (scaled 10 num den k).2 ≤ (scaled 10 num den k).1 then k else k - 1 := rfl
  have hdiv := (magnitude_digitCount hnum).div (by decide) (magnitude_digitCount hden)
  rw [sub_sub_sub_cancel_right] at hdiv
  rw [hfloor]
  simpa only [scaled_snd_le_fst_iff (b := 10) (by decide) num (Nat.pos_of_ne_zero hden)] using
    hdiv

/-! ### Grids -/

/-- The number `q` of steps of `b ^ k` is at most half a step away from `x`. -/
def Rounded (b : Nat) (x : ℚ) (k : ℤ) (q : Nat) : Prop :=
  |(q : ℚ) * (b : ℚ) ^ k - x| ≤ (b : ℚ) ^ k / 2

section
variable {b : Nat} {x : ℚ} {k : ℤ} {q : Nat}

/-- The rounded quotient of the `scaled` fraction is a number of steps that is `Rounded`. -/
theorem rounded_scaled (hbase : 0 < b) (num : Nat) {den : Nat} (hden : 0 < den) (k : ℤ) :
    Rounded b (num / den) k
      (roundQuotient (scaled b num den k).1 (scaled b num den k).2) := by
  have hstep : (0 : ℚ) < (b : ℚ) ^ k := zpow_pos (Nat.cast_pos.mpr hbase) k
  have hhalf := abs_roundQuotient_sub_le (scaled b num den k).1
    (scaled_snd_pos hbase num hden k)
  rw [scaled_div] at hhalf
  have hscale := mul_le_mul_of_nonneg_right hhalf hstep.le
  rw [← abs_of_pos hstep, ← abs_mul, abs_of_pos hstep, sub_mul, div_mul_cancel₀ _ hstep.ne',
    one_div_mul_eq_div] at hscale
  exact hscale

/-- No whole number of steps is nearer than the `Rounded` one. -/
theorem Rounded.abs_sub_le_steps (hbase : 0 < b) (h : Rounded b x k q) (n : ℤ) :
    |(q : ℚ) * (b : ℚ) ^ k - x| ≤ |(n : ℚ) * (b : ℚ) ^ k - x| := by
  have hstep : (0 : ℚ) < (b : ℚ) ^ k := zpow_pos (Nat.cast_pos.mpr hbase) k
  have hscale : ∀ a : ℚ, |a * (b : ℚ) ^ k - x| = |a - x / (b : ℚ) ^ k| * (b : ℚ) ^ k := by
    intro a
    rw [← abs_of_pos hstep, ← abs_mul, abs_of_pos hstep, sub_mul, div_mul_cancel₀ _ hstep.ne']
  have hhalf : |(q : ℚ) - x / (b : ℚ) ^ k| ≤ 1 / 2 := by
    rwa [Rounded, hscale, ← one_div_mul_eq_div 2, mul_le_mul_iff_of_pos_right hstep] at h
  rw [hscale, hscale, mul_le_mul_iff_of_pos_right hstep]
  exact abs_sub_le_of_half (n := (q : ℤ)) hhalf n

/-- No number with steps of another size is nearer than the `Rounded` one, if it stays within the
leading power when its steps are finer. -/
theorem Rounded.abs_sub_le (hbase : 0 < b) {f : ℤ} (hx : Magnitude b x f)
    (h : Rounded b x k q) {n j : ℤ}
    (hfine : j < k → k ≤ f ∧ |(n : ℚ)| * (b : ℚ) ^ j ≤ (b : ℚ) ^ f) :
    |(q : ℚ) * (b : ℚ) ^ k - x| ≤ |(n : ℚ) * (b : ℚ) ^ j - x| := by
  have hne : (b : ℚ) ≠ 0 := (Nat.cast_pos.mpr hbase).ne'
  -- A coarser power is a whole number of steps.
  have hwhole : ∀ {i : ℤ}, k ≤ i →
      (b : ℚ) ^ i = ((b ^ (i - k).toNat : ℤ) : ℚ) * (b : ℚ) ^ k := by
    intro i hi
    obtain ⟨d, hd⟩ := Int.eq_ofNat_of_zero_le (sub_nonneg.mpr hi)
    rw [hd, Int.toNat_natCast, Int.cast_pow, Int.cast_natCast, ← zpow_natCast, ← zpow_add₀ hne]
    congr 1
    omega
  by_cases hj : k ≤ j
  · rw [hwhole hj, ← mul_assoc, ← Int.cast_mul]
    exact h.abs_sub_le_steps hbase _
  · obtain ⟨hk, hwithin⟩ := hfine (by omega)
    have hbelow : (n : ℚ) * (b : ℚ) ^ j ≤ (b : ℚ) ^ f :=
      (mul_le_mul_of_nonneg_right (le_abs_self _)
        (zpow_pos (Nat.cast_pos.mpr hbase) j).le).trans hwithin
    have hleading : |(q : ℚ) * (b : ℚ) ^ k - x| ≤ |(b : ℚ) ^ f - x| := by
      rw [hwhole hk]
      exact h.abs_sub_le_steps hbase _
    rw [abs_of_nonpos (sub_nonpos.mpr hx.le)] at hleading
    rw [abs_of_nonpos (sub_nonpos.mpr (hbelow.trans hx.le))]
    linarith

/-- What is `Rounded` stays between the leading power and the next one, so no digit is lost or
gained but at the upper end. -/
theorem Rounded.mem_Icc (hbase : 0 < b) {f : ℤ} (hx : Magnitude b x f) (hk : k ≤ f)
    (h : Rounded b x k q) :
    (b : ℚ) ^ f ≤ q * (b : ℚ) ^ k ∧ q * (b : ℚ) ^ k ≤ (b : ℚ) ^ (f + 1) := by
  have hlow := h.abs_sub_le hbase hx (n := 1) (j := f) (by omega)
  have hhigh := h.abs_sub_le hbase hx (n := 1) (j := f + 1) (by omega)
  rw [Int.cast_one, one_mul] at hlow hhigh
  rw [abs_of_nonpos (sub_nonpos.mpr hx.le), abs_le] at hlow
  rw [abs_of_pos (sub_pos.mpr hx.lt), abs_le] at hhigh
  constructor <;> linarith

end

end TypedOps
