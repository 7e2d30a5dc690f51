import TypedOps.Proofs.Number.Grid
import TypedOps.Proofs.Number.Single

/-!
# `TypedOps.Proofs.Number.Rounding`: rounding to a format goes to a nearest number

A floating-point number stands for a rational number, its `value`. Rounding to a format keeps as
many bits as the format has, or fewer where its least exponent does not go further, and what comes
out is one of the nearest numbers that the format has: `Format.Steps` says how it gets there, and
`Format.Steps.abs_sub_le` that nothing is nearer.

* `Format.round_congr`: it depends on the value only, not on the fraction that is rounded.
* `Format.round_eq_finite`: a number of the format is rounded to itself.
* `Format.Steps.error_le`: the error is small against the number, where all bits are kept.
-/

set_option autoImplicit false

namespace TypedOps.Floating

/-! ### Values -/

/-- The number that a `Floating` stands for; infinities and what is no number count as zero. -/
def value : Floating → ℚ
  | .finite negative m e => (if negative then -1 else 1) * (m * 2 ^ e)
  | _ => 0

/-- The `fraction` that is made of a mantissa and an exponent has a positive denominator. -/
theorem fraction_snd_pos (m : Nat) (e : Int) : 0 < (fraction m e).2 := by
  rw [fraction]
  split
  · exact Nat.one_pos
  · exact Nat.pow_pos (by decide)

/-- The numerator of the `fraction` is zero only for the mantissa zero. -/
theorem fraction_fst_ne_zero {m : Nat} (hm : m ≠ 0) (e : Int) : (fraction m e).1 ≠ 0 := by
  rw [fraction]
  split
  · exact Nat.mul_ne_zero hm (Nat.pow_pos (by decide)).ne'
  · exact hm

/-- The fraction of a mantissa and an exponent has the value `m * 2 ^ e`. -/
theorem fraction_div (m : Nat) (e : Int) :
    ((fraction m e).1 : ℚ) / (fraction m e).2 = m * 2 ^ e := by
  rw [fraction]
  split
  · next he =>
    obtain ⟨n, rfl⟩ := Int.eq_ofNat_of_zero_le he
    show ((m * 2 ^ n : Nat) : ℚ) / (1 : Nat) = _
    rw [Nat.cast_mul, Nat.cast_pow, Nat.cast_ofNat, Nat.cast_one, div_one, zpow_natCast]
  · next he =>
    obtain ⟨n, rfl⟩ : ∃ n : ℕ, e = -n := ⟨(-e).toNat, by omega⟩
    show (m : ℚ) / ((2 ^ (- -(n : ℤ)).toNat : Nat) : ℚ) = _
    rw [neg_neg, Int.toNat_natCast, Nat.cast_pow, Nat.cast_ofNat, zpow_neg, zpow_natCast,
      div_eq_mul_inv]

/-- Odd mantissas are told apart by the number they make with a power of two, and so are their
exponents; `ofDyadic` rests on this. -/
theorem odd_mul_zpow_inj {m m' : Nat} {e e' : ℤ} (hm : m % 2 = 1) (hm' : m' % 2 = 1)
    (h : (m : ℚ) * 2 ^ e = m' * 2 ^ e') : m = m' ∧ e = e' := by
  -- A difference of the exponents would make the mantissa with the greater one's share even.
  have hle : ∀ {a b : Nat} {i j : ℤ}, a % 2 = 1 → (a : ℚ) * 2 ^ i = b * 2 ^ j → j ≤ i := by
    intro a b i j ha hab
    refine le_of_not_gt fun hlt => ?_
    obtain ⟨d, hd⟩ : ∃ d : ℕ, j = i + (d + 1 : ℕ) := ⟨(j - i - 1).toNat, by omega⟩
    have hne : (2 : ℚ) ^ i ≠ 0 := zpow_ne_zero _ two_ne_zero
    rw [hd, zpow_add₀ two_ne_zero, zpow_natCast, mul_left_comm, mul_comm (a : ℚ),
      mul_right_inj' hne] at hab
    have hnat : a = b * 2 ^ (d + 1) := by exact_mod_cast hab
    rw [hnat, Nat.pow_succ, ← Nat.mul_assoc, Nat.mul_mod_left] at ha
    cases ha
  have he : e = e' := le_antisymm (hle hm' h.symm) (hle hm h)
  subst he
  rw [mul_left_inj' (zpow_ne_zero _ two_ne_zero)] at h
  exact ⟨by exact_mod_cast h, rfl⟩

/-- A number that is not zero has a form with an odd mantissa, which is what `ofDyadic` gives. -/
theorem exists_ofDyadic_eq {q : Nat} (hq : q ≠ 0) (e : ℤ) :
    ∃ (m : Nat) (j : ℤ), m % 2 = 1 ∧ (m : ℚ) * 2 ^ j = q * 2 ^ e ∧
      ∀ negative, ofDyadic negative q e = .finite negative m j := by
  obtain ⟨k, m, hodd, rfl⟩ := Nat.exists_eq_two_pow_mul_odd hq
  have hm : m % 2 = 1 := Nat.odd_iff.mp hodd
  refine ⟨m, e + k, hm, ?_, fun negative => ?_⟩
  · rw [zpow_add₀ two_ne_zero, zpow_natCast, Nat.cast_mul, Nat.cast_pow, Nat.cast_ofNat]
    ring
  · rw [Nat.mul_comm, ofDyadic_mul_pow hm]

/-- The form with an odd mantissa is found by `ofDyadic` from the value, whatever mantissa was
given. -/
theorem ofDyadic_eq_finite {q m : Nat} {e j : ℤ} (hm : m % 2 = 1)
    (h : (q : ℚ) * 2 ^ e = m * 2 ^ j) (negative : Bool) :
    ofDyadic negative q e = .finite negative m j := by
  have hq : q ≠ 0 := by
    rintro rfl
    have hpos : (0 : ℚ) < m * 2 ^ j :=
      mul_pos (Nat.cast_pos.mpr (by omega)) (zpow_pos two_pos _)
    rw [← h, Nat.cast_zero, zero_mul] at hpos
    exact lt_irrefl _ hpos
  obtain ⟨m', j', hm', hvalue, hform⟩ := exists_ofDyadic_eq hq e
  obtain ⟨rfl, rfl⟩ := odd_mul_zpow_inj hm' hm (hvalue.trans h)
  exact hform negative

/-- What `ofDyadic` gives has the value of the mantissa and exponent it is given. -/
theorem value_ofDyadic (negative : Bool) (q : Nat) (e : ℤ) :
    (ofDyadic negative q e).value = (if negative then -1 else 1) * (q * 2 ^ e) := by
  by_cases hq : q = 0
  · rw [hq, ofDyadic, if_pos rfl, zero, value, Nat.cast_zero, zero_mul, zero_mul]
  · obtain ⟨m, j, -, hvalue, hform⟩ := exists_ofDyadic_eq hq e
    rw [hform, value, hvalue]

/-! ### Rounding -/

/-- A `Format` with some bits and some exponents, as the lemmas on rounding need it. -/
structure Format.Sound (format : Format) : Prop where
  precision_pos : 0 < format.precision
  min_le_max : format.minExponent ≤ format.maxExponent

/-- Single precision is a `Sound` format. -/
theorem Format.single_sound : Format.single.Sound := ⟨by decide, by decide⟩

/-- Double precision is a `Sound` format. -/
theorem Format.double_sound : Format.double.Sound := ⟨by decide, by decide⟩

/-- The exponent of the last bit that is kept of a number with the leading bit at `f`. -/
def Format.place (format : Format) (f : ℤ) : ℤ := max format.minExponent (f + 1 - format.precision)

/-- A fraction as a whole number of units of the last bit that is kept: the exponent of that bit
(`place`), and the number, by `roundQuotient`. -/
def Format.units (format : Format) (num den : Nat) : ℤ × Nat :=
  let e := format.place (floorLog2 num den)
  (e, roundQuotient (scaled 2 num den e).1 (scaled 2 num den e).2)

/-- The number `q` of units of `2 ^ e` is past the greatest number of the format. -/
def Format.Overflows (format : Format) (e : ℤ) (q : Nat) : Prop :=
  format.maxExponent < e ∨ format.maxExponent = e ∧ 2 ^ format.precision ≤ q

instance (format : Format) (e : ℤ) (q : Nat) : Decidable (format.Overflows e q) :=
  inferInstanceAs (Decidable (_ ∨ _))

/-- A fraction is rounded to its `units`, or to infinity where these overflow. -/
theorem Format.round_eq (format : Format) (negative : Bool) {num : Nat} (hnum : num ≠ 0)
    (den : Nat) : format.round negative num den =
      if format.Overflows (format.units num den).1 (format.units num den).2 then .infinite negative
      else ofDyadic negative (format.units num den).2 (format.units num den).1 := by
  -- The scaled quotient is `units`, whichever way it is scaled.
  have hunits : (if 0 ≤ (format.units num den).1 then
      roundQuotient num (den * Nat.pow 2 (format.units num den).1.toNat)
    else roundQuotient (num * Nat.pow 2 (-(format.units num den).1).toNat) den) =
      (format.units num den).2 := by
    by_cases he : 0 ≤ format.place (floorLog2 num den)
    · simp only [units, scaled, if_pos he, Nat.pow_eq]
    · simp only [units, scaled, if_neg he, Nat.pow_eq]
  -- The two guards of `Format.round` are the two ways to overflow.
  have hround : format.round negative num den =
      if (decide (format.maxExponent < (format.units num den).1) ||
        (format.maxExponent == (format.units num den).1 &&
          decide (Nat.pow 2 format.precision ≤ (format.units num den).2))) = true
      then .infinite negative
      else ofDyadic negative (format.units num den).2 (format.units num den).1 := by
    rw [round, if_neg hnum, ← hunits]
    rfl
  rw [hround]
  refine if_congr ?_ rfl rfl
  simp only [Overflows, Bool.or_eq_true, Bool.and_eq_true, decide_eq_true_eq, beq_iff_eq,
    Nat.pow_eq]

/-- A number `q` of units of the last bit that is kept of the positive number `x`, at most half a
unit away from it. -/
def Format.Steps (format : Format) (x : ℚ) (e : ℤ) (q : Nat) : Prop :=
  ∃ f, Magnitude 2 x f ∧ e = format.place f ∧ Rounded 2 x e q

/-- The `units` of a fraction are such a number of units. -/
theorem Format.steps_units (format : Format) {num den : Nat} (hnum : num ≠ 0) (hden : den ≠ 0) :
    format.Steps (num / den) (format.units num den).1 (format.units num den).2 :=
  ⟨_, magnitude_floorLog2 hnum hden, rfl,
    rounded_scaled (by decide) num (Nat.pos_of_ne_zero hden) _⟩

/-- Equal fractions are rounded by `round` alike, whatever factors they have in common. -/
theorem Format.round_congr (format : Format) (negative : Bool) {num den num' den' : Nat}
    (hnum : num ≠ 0) (hden : den ≠ 0) (hden' : den' ≠ 0) (h : (num : ℚ) / den = num' / den') :
    format.round negative num den = format.round negative num' den' := by
  have hnum' : num' ≠ 0 := by
    rintro rfl
    rw [Nat.cast_zero, zero_div, div_eq_zero_iff, Nat.cast_eq_zero, Nat.cast_eq_zero] at h
    exact h.elim hnum hden
  have hfloor : floorLog2 num den = floorLog2 num' den' := by
    refine (magnitude_floorLog2 hnum hden).unique (by decide) ?_
    rw [h]
    exact magnitude_floorLog2 hnum' hden'
  have hunits : format.units num den = format.units num' den' := by
    simp only [units, hfloor]
    have hpos := scaled_snd_pos (b := 2) (by decide) num (Nat.pos_of_ne_zero hden)
      (format.place (floorLog2 num' den'))
    have hpos' := scaled_snd_pos (b := 2) (by decide) num' (Nat.pos_of_ne_zero hden')
      (format.place (floorLog2 num' den'))
    congr 1
    refine roundQuotient_congr hpos hpos' ?_
    -- Dividing by the unit leaves the two fractions equal.
    have hscaled := scaled_div 2 num den (format.place (floorLog2 num' den'))
    rw [h, ← scaled_div 2 num' den', div_eq_div_iff (Nat.cast_pos.mpr hpos).ne'
      (Nat.cast_pos.mpr hpos').ne'] at hscaled
    exact_mod_cast hscaled
  rw [round_eq format negative hnum, round_eq format negative hnum', hunits]

section
variable {format : Format} {x : ℚ} {e : ℤ} {q : Nat}

/-- No number of the format is nearer than the one that its `Steps` lead to: a unit finer than the
last bit is below the leading one. -/
theorem Format.Steps.abs_sub_le (hformat : format.Sound) (h : format.Steps x e q) {n j : ℤ}
    (hn : |n| ≤ 2 ^ format.precision) (hj : format.minExponent ≤ j) :
    |(q : ℚ) * 2 ^ e - x| ≤ |(n : ℚ) * 2 ^ j - x| := by
  obtain ⟨f, hf, rfl, hq⟩ := h
  refine hq.abs_sub_le (b := 2) (by decide) hf fun hfine => ?_
  -- The finer unit shows that the place is the one below the bits, and not the least one.
  have hplace : format.place f = f + 1 - format.precision := by
    rw [place] at hfine ⊢
    omega
  have hbits := hformat.precision_pos
  refine ⟨by omega, ?_⟩
  calc |(n : ℚ)| * (2 : ℕ) ^ j ≤ 2 ^ format.precision * 2 ^ j := by
        refine mul_le_mul_of_nonneg_right ?_ (zpow_pos two_pos j).le
        exact_mod_cast hn
    _ = (2 : ℚ) ^ ((format.precision : ℤ) + j) := by
      rw [zpow_add₀ two_ne_zero, zpow_natCast]
    _ ≤ (2 : ℕ) ^ f := zpow_le_zpow_right₀ one_le_two (by omega)

/-- If the number that is rounded is one of the format, the `Steps` hit it. -/
theorem Format.Steps.eq_of_value (hformat : format.Sound) (h : format.Steps x e q) {n j : ℤ}
    (hn : |n| ≤ 2 ^ format.precision) (hj : format.minExponent ≤ j)
    (hx : x = n * 2 ^ j) : (q : ℚ) * 2 ^ e = x := by
  have hnearest := h.abs_sub_le hformat hn hj
  rw [← hx, sub_self, abs_zero] at hnearest
  exact sub_eq_zero.mp (abs_nonpos_iff.mp hnearest)

/-- Where all bits are kept, the error of the `Steps` is small against the number. -/
theorem Format.Steps.error_le (h : format.Steps x e q) {f : ℤ} (hf : Magnitude 2 x f)
    (hmin : format.minExponent ≤ f + 1 - format.precision) :
    |(q : ℚ) * 2 ^ e - x| * 2 ^ format.precision ≤ x := by
  obtain ⟨f', hf', rfl, hq⟩ := h
  obtain rfl : f' = f := hf'.unique (by decide) hf
  have hplace : format.place f' = f' + 1 - format.precision := max_eq_right hmin
  calc |(q : ℚ) * 2 ^ format.place f' - x| * 2 ^ format.precision
      ≤ 2 ^ format.place f' / 2 * 2 ^ format.precision :=
        mul_le_mul_of_nonneg_right hq (pow_pos two_pos _).le
    _ = (2 : ℚ) ^ f' := by
      rw [hplace, zpow_sub₀ two_ne_zero, zpow_add₀ two_ne_zero, zpow_one, zpow_natCast]
      field_simp
    _ ≤ x := hf.le

/-- Up to half a unit before the first power of two past the format, nothing `Overflows`. -/
theorem Format.Steps.not_overflows (hformat : format.Sound) (h : format.Steps x e q)
    (hx : x < 2 ^ (format.precision + format.maxExponent) - 2 ^ format.maxExponent / 2) :
    ¬format.Overflows e q := by
  obtain ⟨f, hf, rfl, hq⟩ := h
  have hunit : (0 : ℚ) < 2 ^ format.maxExponent := zpow_pos two_pos _
  rintro (hgreat | ⟨hsame, hcarry⟩)
  · -- The leading bit alone is past the format.
    have hleading : format.precision + format.maxExponent ≤ f := by
      have hrange := hformat.min_le_max
      rw [place] at hgreat
      omega
    have hpower : (2 : ℚ) ^ (format.precision + format.maxExponent) ≤ (2 : ℕ) ^ f :=
      zpow_le_zpow_right₀ one_le_two hleading
    have hle := hf.le
    linarith
  -- The carry is at the greatest place, so the rounded number has reached the bound.
  · have hpower : (2 : ℚ) ^ (format.precision + format.maxExponent) ≤ q * 2 ^ format.place f := by
      rw [← hsame, zpow_add₀ two_ne_zero, zpow_natCast]
      exact mul_le_mul_of_nonneg_right (by exact_mod_cast hcarry) hunit.le
    have hle := (abs_le.mp hq).2
    rw [← hsame] at hle hpower
    push_cast at hle
    linarith

/-- The last power of two of a `Sound` format is far enough from where rounding overflows. -/
theorem Format.lt_of_le_power (hformat : format.Sound)
    (hx : x ≤ 2 ^ (format.precision + format.maxExponent - 1)) :
    x < 2 ^ (format.precision + format.maxExponent) - 2 ^ format.maxExponent / 2 := by
  have hdouble : (2 : ℚ) ^ (format.precision + format.maxExponent) =
      2 * 2 ^ (format.precision + format.maxExponent - 1) := by
    rw [← zpow_one_add₀ two_ne_zero]
    congr 1
    omega
  have hhalf : (2 : ℚ) ^ format.maxExponent / 2 = 2 ^ (format.maxExponent - 1) := by
    rw [zpow_sub_one₀ two_ne_zero, div_eq_mul_inv]
  have hless : (2 : ℚ) ^ (format.maxExponent - 1) <
      2 ^ (format.precision + format.maxExponent - 1) :=
    zpow_lt_zpow_right₀ one_lt_two (by have hbits := hformat.precision_pos; omega)
  rw [hdouble, hhalf]
  linarith

/-- A number of the format is rounded by `round` to itself, in the form with an odd mantissa. -/
theorem Format.round_eq_finite (hformat : format.Sound) {m num den : Nat} {j : ℤ} (hm : m % 2 = 1)
    (hbits : m < 2 ^ format.precision) (hj : format.minExponent ≤ j) (hden : den ≠ 0)
    (hvalue : (num : ℚ) / den = m * 2 ^ j)
    (hx : (m : ℚ) * 2 ^ j <
      2 ^ (format.precision + format.maxExponent) - 2 ^ format.maxExponent / 2)
    (negative : Bool) : format.round negative num den = .finite negative m j := by
  have hnum : num ≠ 0 := by
    rintro rfl
    rw [Nat.cast_zero, zero_div] at hvalue
    exact (mul_pos (Nat.cast_pos.mpr (by omega)) (zpow_pos two_pos j)).ne hvalue
  have hsteps := format.steps_units hnum hden
  have hhit := hsteps.eq_of_value hformat (n := m) (j := j) (by
    rw [Nat.abs_cast]
    exact_mod_cast hbits.le) hj hvalue
  rw [round_eq format negative hnum, if_neg (hsteps.not_overflows hformat (by rwa [hvalue]))]
  exact ofDyadic_eq_finite hm (hhit.trans hvalue) negative

end

end TypedOps.Floating
