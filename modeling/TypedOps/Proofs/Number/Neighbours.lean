import TypedOps.Proofs.Number.Rounding

/-!
# `TypedOps.Proofs.Number.Neighbours`: telling the numbers of a format apart

A number identifies one of a format if it is nearer to this one than to any other
(`Format.Identifies`). Then rounding to the format takes it there
(`Format.Identifies.value_nearest`).

A positive number of a format is a whole number of units of the last place, as many as there is room
for (`Format.Whole`). The next greater one is one unit away and the next smaller one is, too, unless
the number is the least with its last place: then it is half a unit (`Format.gapBelow`). Nothing
stands in between (`Format.Whole.le_or_le`), so what identifies the number is within half of these
distances (`Format.Whole.identifies_iff`).
-/

set_option autoImplicit false

namespace TypedOps.Floating

/-- The finite numbers of a format, as exact rationals: those it `Holds`. -/
def Format.Has (format : Format) (x : ℚ) : Prop :=
  ∃ negative m e, format.Holds (.finite negative m e) ∧ (Floating.finite negative m e).value = x

/-- A number that is nearer to the number `x` of a format than to any other one. Such a number is
enough to tell `x` from the rest. -/
def Format.Identifies (format : Format) (d x : ℚ) : Prop :=
  ∀ y, format.Has y → y ≠ x → |d - x| < |d - y|

/-- The number of a format that a rational number is rounded to by `Format.round`. -/
def Format.nearest (format : Format) (x : ℚ) : Floating :=
  format.round (decide (x < 0)) x.num.natAbs x.den

/-- A positive number `n · 2 ^ e` of a format, with all the bits that there is room for. -/
structure Format.Whole (format : Format) (x : ℚ) (n : Nat) (e : ℤ) : Prop where
  eq : x = n * 2 ^ e
  pos : 0 < n
  lt : n < 2 ^ format.precision
  min_le : format.minExponent ≤ e
  le_max : e ≤ format.maxExponent
  full : format.minExponent < e → 2 ^ (format.precision - 1) ≤ n

/-- The distance from `n · 2 ^ e` down to the next number. It is half a unit where the mantissa is
the least one that fills the format. -/
def Format.gapBelow (format : Format) (n : Nat) (e : ℤ) : ℚ :=
  if n = 2 ^ (format.precision - 1) ∧ format.minExponent < e then 2 ^ (e - 1) else 2 ^ e

/-- The distance `gapBelow` a number, to the next lower one, is positive. -/
theorem Format.gapBelow_pos (format : Format) (n : Nat) (e : ℤ) : 0 < format.gapBelow n e := by
  rw [gapBelow]
  split <;> exact zpow_pos two_pos _

/-- The distance `gapBelow` a number, to the next lower one, is at most one unit. -/
theorem Format.gapBelow_le (format : Format) (n : Nat) (e : ℤ) :
    format.gapBelow n e ≤ 2 ^ e := by
  rw [gapBelow]
  split
  · exact zpow_le_zpow_right₀ one_le_two (by omega)
  · exact le_refl _

/-! ### Membership -/

section
variable {format : Format} {x y d : ℚ} {n n' : Nat} {e e' : ℤ}

/-- If a format `Has` a number, it has the negative of it. -/
theorem Format.Has.neg (h : format.Has x) : format.Has (-x) := by
  obtain ⟨negative, m, e, hholds, rfl⟩ := h
  refine ⟨!negative, m, e, hholds, ?_⟩
  cases negative <;> simp [value]

/-- A larger format `Has` the numbers of a smaller one. -/
theorem Format.Has.mono {format' : Format} (h : format.Has x)
    (hprecision : format.precision ≤ format'.precision)
    (hmin : format'.minExponent ≤ format.minExponent)
    (hmax : format.precision + format.maxExponent ≤ format'.precision + format'.maxExponent) :
    format'.Has x := by
  obtain ⟨negative, m, e, hholds, rfl⟩ := h
  refine ⟨negative, m, e, ?_, rfl⟩
  rcases hholds with hzero | ⟨hodd, hbits, hleast, hgreatest⟩
  · exact .inl hzero
  · exact .inr ⟨hodd, hbits.trans_le (Nat.pow_le_pow_right (by decide) hprecision), by omega,
      by omega⟩

/-- A format `Has` the value of every number that it holds. -/
theorem Format.has_value {y : Floating} (h : format.Holds y) : format.Has y.value := by
  cases y with
  | finite negative m e => exact ⟨negative, m, e, h, rfl⟩
  | _ => exact ⟨false, 0, 0, .inl ⟨rfl, rfl⟩, by simp [value]⟩

/-- Fewer units of an allowed place than `2 ^ format.precision` are a number of the format. -/
theorem Format.has_steps (hformat : format.Sound) {n : ℤ}
    (hn : |n| < 2 ^ format.precision) (hmin : format.minExponent ≤ e)
    (hmax : e ≤ format.maxExponent) : format.Has (n * 2 ^ e) := by
  by_cases hzero : n = 0
  · exact ⟨false, 0, 0, .inl ⟨rfl, rfl⟩, by simp [value, hzero]⟩
  -- Other than zero, the steps are a dyadic number with no more bits than the format has.
  · have hbits : n.natAbs < 2 ^ format.precision := by
      rw [← Nat.cast_lt (α := ℤ), Nat.cast_natAbs]
      exact_mod_cast hn
    obtain ⟨m, j, -, hvalue, hform⟩ := exists_ofDyadic_eq (Int.natAbs_ne_zero.mpr hzero) e
    have hholds := Format.ofDyadic_holds hformat.precision_pos (decide (n < 0)) hbits.le hmin hmax
      fun _ => hbits
    rw [hform] at hholds
    refine ⟨decide (n < 0), m, j, hholds, ?_⟩
    -- The sign stands apart from the digits, so the value is compared for either sign.
    rw [value, hvalue, Nat.cast_natAbs]
    by_cases hneg : n < 0
    · rw [abs_of_neg hneg, if_pos (decide_eq_true hneg), Int.cast_neg]
      ring
    · rw [abs_of_nonneg (not_lt.mp hneg), if_neg (by simpa using hneg), one_mul]

/-- A number that a format `Has` is so many units of an allowed place. -/
theorem Format.Has.exists_steps (h : format.Has x) :
    ∃ n e : ℤ, |n| ≤ 2 ^ format.precision ∧ format.minExponent ≤ e ∧ x = n * 2 ^ e := by
  obtain ⟨negative, m, e, hholds, rfl⟩ := h
  rcases hholds with ⟨rfl, -⟩ | ⟨-, hbits, hmin, -⟩
  · exact ⟨0, format.minExponent, by simp, le_refl _, by simp [value]⟩
  · have hm : |(m : ℤ)| ≤ 2 ^ format.precision := by
      rw [Nat.abs_cast]
      exact_mod_cast hbits.le
    cases negative with
    | false => exact ⟨m, e, hm, hmin, by simp [value]⟩
    | true => exact ⟨-m, e, by rwa [abs_neg], hmin, by simp [value]⟩

/-- A positive number that a format `Has` is a whole number of units of the last place. -/
theorem Format.Has.exists_whole (h : format.Has x) (hformat : format.Sound) (hpos : 0 < x) :
    ∃ n e, format.Whole x n e := by
  obtain ⟨negative, m, j, hholds, rfl⟩ := h
  rcases hholds with ⟨rfl, -⟩ | ⟨hodd, hbits, hmin, hmax⟩
  · simp [value] at hpos
  have hsign : negative = false := by
    refine Bool.eq_false_iff.mpr fun htrue => absurd hpos (not_lt.mpr ?_)
    rw [value, if_pos htrue, neg_one_mul]
    exact neg_nonpos.mpr (mul_nonneg (Nat.cast_nonneg m) (zpow_pos two_pos j).le)
  subst hsign
  have hm : m ≠ 0 := by omega
  have hlog : m.log2 < format.precision := (Nat.log2_lt hm).mpr hbits
  have hrange := hformat.min_le_max
  -- The mantissa is moved up as far as there is room.
  obtain ⟨e, he⟩ : ∃ e, e = format.place (m.log2 + j) := ⟨_, rfl⟩
  rw [place] at he
  obtain ⟨k, hk⟩ : ∃ k : ℕ, j = e + k := ⟨(j - e).toNat, by omega⟩
  refine ⟨m * 2 ^ k, e, ?_, Nat.mul_pos (by omega) (Nat.pow_pos (by decide)), ?_, by omega,
    by omega, fun hless => ?_⟩
  · rw [value, if_neg Bool.false_ne_true, one_mul, hk, zpow_add₀ two_ne_zero, zpow_natCast]
    push_cast
    ring
  · calc m * 2 ^ k < 2 ^ (m.log2 + 1) * 2 ^ k :=
          Nat.mul_lt_mul_of_pos_right Nat.lt_log2_self (Nat.pow_pos (by decide))
      _ = 2 ^ (m.log2 + 1 + k) := (Nat.pow_add ..).symm
      _ ≤ 2 ^ format.precision := Nat.pow_le_pow_right (by decide) (by omega)
  · calc 2 ^ (format.precision - 1) ≤ 2 ^ (m.log2 + k) :=
          Nat.pow_le_pow_right (by decide) (by omega)
      _ = 2 ^ m.log2 * 2 ^ k := Nat.pow_add ..
      _ ≤ m * 2 ^ k := Nat.mul_le_mul_right _ (Nat.log2_self_le hm)

/-! ### Neighbours -/

/-- A `Whole` number has at least one unit of its place. -/
theorem Format.Whole.unit_le (h : format.Whole x n e) : 2 ^ e ≤ x := by
  rw [h.eq]
  exact le_mul_of_one_le_left (zpow_pos two_pos e).le (Nat.one_le_cast.mpr h.pos)

/-- A `Whole` number is at most the greatest number, a unit below the first power of two past the
format. -/
theorem Format.Whole.le_greatest (h : format.Whole x n e) :
    x ≤ 2 ^ (format.precision + format.maxExponent) - 2 ^ format.maxExponent := by
  have hbits : (n : ℚ) ≤ 2 ^ format.precision - 1 := by
    rw [le_sub_iff_add_le]
    exact_mod_cast h.lt
  rw [h.eq]
  calc (n : ℚ) * 2 ^ e ≤ (2 ^ format.precision - 1) * 2 ^ format.maxExponent :=
        mul_le_mul hbits (zpow_le_zpow_right₀ one_le_two h.le_max) (zpow_pos two_pos e).le
          ((Nat.cast_nonneg n).trans hbits)
    _ = 2 ^ (format.precision + format.maxExponent) - 2 ^ format.maxExponent := by
      rw [zpow_add₀ two_ne_zero, zpow_natCast, sub_mul, one_mul]

/-- A `Whole` number is less than the first power of two past the format. -/
theorem Format.Whole.lt_pow (h : format.Whole x n e) :
    x < 2 ^ (format.precision + format.maxExponent) :=
  h.le_greatest.trans_lt (sub_lt_self _ (zpow_pos two_pos _))

/-- A power of two is two of the next lower one. -/
theorem two_zpow_eq_double (e : ℤ) : (2 : ℚ) ^ e = 2 * 2 ^ (e - 1) := by
  rw [← zpow_one_add₀ two_ne_zero, add_sub_cancel]

/-- For a format that is `Sound`, the first mantissa past the format is twice the first one that
fills it. -/
theorem Format.Sound.two_pow_precision (hformat : format.Sound) :
    (2 : ℚ) ^ format.precision = 2 * 2 ^ (format.precision - 1) := by
  rw [← pow_succ', Nat.sub_add_cancel hformat.precision_pos]

/-- Between a `Whole` number of the format and its neighbours there is no other one. -/
theorem Format.Whole.le_or_le (hformat : format.Sound) (h : format.Whole x n e)
    (h' : format.Whole y n' e') (hne : y ≠ x) : y ≤ x - format.gapBelow n e ∨ x + 2 ^ e ≤ y := by
  have hunit : (0 : ℚ) < 2 ^ e := zpow_pos two_pos e
  by_cases hplace : e ≤ e'
  · -- The other number is a whole number of units, too.
    obtain ⟨k, rfl⟩ : ∃ k : ℕ, e' = e + k := ⟨(e' - e).toNat, by omega⟩
    have hy : y = (n' * 2 ^ k : Nat) * 2 ^ e := by
      rw [h'.eq, zpow_add₀ two_ne_zero, zpow_natCast]
      push_cast
      ring
    generalize n' * 2 ^ k = i at hy
    -- Whole numbers of units are at least one unit apart.
    rcases Nat.lt_trichotomy i n with hless | rfl | hmore
    · left
      have hcast : (i : ℚ) + 1 ≤ n := by exact_mod_cast hless
      have hscale := mul_le_mul_of_nonneg_right hcast hunit.le
      have hgap := format.gapBelow_le n e
      rw [add_mul, one_mul, ← hy, ← h.eq] at hscale
      linarith
    · exact absurd (hy.trans h.eq.symm) hne
    · right
      have hcast : (n : ℚ) + 1 ≤ i := by exact_mod_cast hmore
      have hscale := mul_le_mul_of_nonneg_right hcast hunit.le
      rwa [add_mul, one_mul, ← hy, ← h.eq] at hscale
  · -- The other number has a finer place, so it is less than any with this one.
    left
    have hmin : format.minExponent < e := by
      have hleast := h'.min_le
      omega
    have hhalf := two_zpow_eq_double e
    have hstep : (0 : ℚ) < 2 ^ (e - 1) := zpow_pos two_pos _
    have hdouble := hformat.two_pow_precision
    -- With a finer place the number has at most all its bits set.
    have hy : y ≤ (2 ^ format.precision - 1) * 2 ^ (e - 1) := by
      have hbits : (n' : ℚ) ≤ 2 ^ format.precision - 1 := by
        rw [le_sub_iff_add_le]
        exact_mod_cast h'.lt
      rw [h'.eq]
      exact mul_le_mul hbits (zpow_le_zpow_right₀ one_le_two (by omega)) (zpow_pos two_pos _).le
        ((Nat.cast_nonneg n').trans hbits)
    rw [sub_mul, one_mul, hdouble] at hy
    rw [h.eq, gapBelow]
    -- At a power of two the gap below is half a unit, and elsewhere there is a whole unit of room.
    split
    · next hleast =>
      rw [hleast.1, hhalf]
      push_cast
      linarith
    · next hmore =>
      have hnext : (2 : ℚ) ^ (format.precision - 1) + 1 ≤ n := by
        have hfull := h.full hmin
        have hother : n ≠ 2 ^ (format.precision - 1) := fun heq => hmore ⟨heq, hmin⟩
        exact_mod_cast lt_of_le_of_ne hfull hother.symm
      have hscale := mul_le_mul_of_nonneg_right hnext hunit.le
      rw [add_mul, one_mul, hhalf] at hscale
      rw [hhalf]
      linarith

/-- The lower neighbour of a `Whole` number is a number of the format. -/
theorem Format.Whole.has_below (hformat : format.Sound) (h : format.Whole x n e) :
    format.Has (x - format.gapBelow n e) := by
  have hpos := h.pos
  rw [h.eq, gapBelow]
  -- Below a power of two the numbers are spaced by half the unit, with all bits set.
  split
  · next hleast =>
    have hsteps := has_steps hformat (n := 2 ^ format.precision - 1) (e := e - 1) (by
      rw [abs_of_nonneg (by rw [sub_nonneg]; exact one_le_pow₀ one_le_two)]
      omega) (by omega) (by have hmax := h.le_max; omega)
    have hdouble := hformat.two_pow_precision
    have hhalf := two_zpow_eq_double e
    have hvalue : ((2 ^ format.precision - 1 : ℤ) : ℚ) * 2 ^ (e - 1) = n * 2 ^ e - 2 ^ (e - 1) := by
      rw [hleast.1, hhalf]
      push_cast
      rw [hdouble]
      ring
    rwa [hvalue] at hsteps
  · have hsteps := has_steps hformat (n := n - 1) (e := e) (by
      have hlt : (n : ℤ) < 2 ^ format.precision := by exact_mod_cast h.lt
      rw [abs_of_nonneg (by omega)]
      omega) h.min_le h.le_max
    rwa [Int.cast_sub, Int.cast_one, Int.cast_natCast, sub_mul, one_mul] at hsteps

/-- The upper neighbour of a `Whole` number is a number of the format, unless the number is the
greatest. -/
theorem Format.Whole.has_above (hformat : format.Sound) (h : format.Whole x n e) :
    format.Has (x + 2 ^ e) ∨
      x + 2 ^ e = 2 ^ (format.precision + format.maxExponent) ∧ e = format.maxExponent := by
  have hnext : x + 2 ^ e = ((n + 1 : ℤ) : ℚ) * 2 ^ e := by
    rw [h.eq]
    push_cast
    ring
  -- One unit more either fits into the bits or carries over to the next power of two.
  by_cases hroom : n + 1 < 2 ^ format.precision
  · left
    rw [hnext]
    refine has_steps hformat ?_ h.min_le h.le_max
    rw [abs_of_nonneg (by omega)]
    exact_mod_cast hroom
  · have hfull : n + 1 = 2 ^ format.precision := by
      have hlt := h.lt
      omega
    have hpower : x + 2 ^ e = 2 ^ (format.precision + e) := by
      rw [hnext, zpow_add₀ two_ne_zero, zpow_natCast]
      congr 1
      exact_mod_cast hfull
    by_cases hlast : e = format.maxExponent
    · exact .inr ⟨by rw [hpower, hlast], hlast⟩
    · left
      have hmax := h.le_max
      have hmin := h.min_le
      have hbits := hformat.precision_pos
      -- The carried number has a single bit, one place further up.
      have hcarried : x + 2 ^ e = ((2 ^ (format.precision - 1) : ℤ) : ℚ) * 2 ^ (e + 1) := by
        rw [hpower]
        push_cast
        rw [← zpow_natCast, ← zpow_add₀ two_ne_zero]
        congr 1
        omega
      rw [hcarried]
      refine has_steps hformat ?_ (by omega) (by omega)
      rw [abs_of_nonneg (pow_nonneg two_pos.le _)]
      exact pow_lt_pow_right₀ one_lt_two (by omega)

/-! ### What identifies a number -/

/-- A number is nearer to the greater of two others if it is past the middle between them. -/
theorem abs_sub_lt_abs_sub_iff (h : y < x) : |d - x| < |d - y| ↔ (x + y) / 2 < d := by
  have hpos : 0 < x - y := sub_pos.mpr h
  have hdiff : (d - y) ^ 2 - (d - x) ^ 2 = (x - y) * (2 * d - (x + y)) := by ring
  rw [← sq_lt_sq, ← sub_pos, hdiff, mul_pos_iff_of_pos_left hpos, sub_pos,
    div_lt_iff₀ two_pos, mul_comm]

/-- A number is nearer to the smaller of two others if it is before the middle between them. -/
theorem abs_sub_lt_abs_sub_iff' (h : x < y) : |d - x| < |d - y| ↔ d < (x + y) / 2 := by
  have hpos : 0 < y - x := sub_pos.mpr h
  have hdiff : (d - y) ^ 2 - (d - x) ^ 2 = (y - x) * (x + y - 2 * d) := by ring
  rw [← sq_lt_sq, ← sub_pos, hdiff, mul_pos_iff_of_pos_left hpos, sub_pos,
    lt_div_iff₀ two_pos, mul_comm]

/-- A number `Identifies` one of the format from within half the distance to each neighbour. -/
theorem Format.Whole.identifies_iff (hformat : format.Sound) (h : format.Whole x n e) :
    format.Identifies d x ↔
      x - format.gapBelow n e / 2 < d ∧ (format.Has (x + 2 ^ e) → d < x + 2 ^ e / 2) := by
  have hunit : (0 : ℚ) < 2 ^ e := zpow_pos two_pos e
  have hgap := format.gapBelow_pos n e
  constructor
  · intro hd
    constructor
    -- The number below is one of the format, so it must not be nearer.
    · have hnear := hd _ (h.has_below hformat) (by linarith)
      rw [abs_sub_lt_abs_sub_iff (by linarith)] at hnear
      linarith
    · intro habove
      have hnear := hd _ habove (by linarith)
      rw [abs_sub_lt_abs_sub_iff' (by linarith)] at hnear
      linarith
  · rintro ⟨hlow, hhigh⟩ y hy hne
    -- Another number lies on one of the two sides, at least as far as the neighbour.
    have hside : y ≤ x - format.gapBelow n e ∨ x + 2 ^ e ≤ y := by
      by_cases hpos : 0 < y
      · obtain ⟨n', e', hwhole⟩ := hy.exists_whole hformat hpos
        exact h.le_or_le hformat hwhole hne
      · left
        have hunits := h.unit_le
        have hless := format.gapBelow_le n e
        linarith
    rcases hside with hbelow | habove
    · rw [abs_sub_lt_abs_sub_iff (by linarith)]
      linarith
    · rw [abs_sub_lt_abs_sub_iff' (by linarith)]
      -- If there were no number above, the other one would be past the format as well.
      have hnext : format.Has (x + 2 ^ e) := by
        refine (h.has_above hformat).resolve_right fun hlast => ?_
        have hunits := h.unit_le
        obtain ⟨n', e', hwhole⟩ := hy.exists_whole hformat (by linarith)
        exact absurd hwhole.lt_pow (not_lt.mpr (hlast.1 ▸ habove))
      have hbound := hhigh hnext
      linarith

/-- No number of the format is nearer to a rational number than its `nearest`. -/
theorem Format.abs_sub_nearest_le (hformat : format.Sound) (hx : format.Has x)
    (hbound : |d| < 2 ^ (format.precision + format.maxExponent) - 2 ^ format.maxExponent / 2) :
    |d - (format.nearest d).value| ≤ |d - x| := by
  by_cases hzero : d = 0
  · subst hzero
    have hvalue : (format.nearest 0).value = 0 := by simp [nearest, round, zero, value]
    rw [hvalue, sub_zero, abs_zero]
    exact abs_nonneg _
  have hnum : d.num.natAbs ≠ 0 := Int.natAbs_ne_zero.mpr (Rat.num_ne_zero.mpr hzero)
  have hfraction : (d.num.natAbs : ℚ) / d.den = |d| := by
    rw [Nat.cast_natAbs, Int.cast_abs, ← Nat.abs_cast d.den, ← abs_div, Rat.num_div_den]
  have hsteps := format.steps_units hnum d.den_nz
  rw [hfraction] at hsteps
  obtain ⟨n, j, hn, hj, rfl⟩ := hx.exists_steps
  rw [nearest, round_eq format _ hnum, if_neg (hsteps.not_overflows hformat hbound),
    value_ofDyadic]
  rw [abs_sub_comm, abs_sub_comm d]
  -- The sign is that of the number that is rounded, and makes no difference.
  by_cases hneg : d < 0
  · have hle := hsteps.abs_sub_le hformat (n := -n) (by rwa [abs_neg]) hj
    rw [abs_of_neg hneg, sub_neg_eq_add, Int.cast_neg, neg_mul, neg_sub_neg,
      abs_sub_comm d] at hle
    rw [if_pos (decide_eq_true hneg), neg_one_mul, ← neg_add', abs_neg]
    exact hle
  · have hle := hsteps.abs_sub_le hformat hn hj
    rw [abs_of_nonneg (not_lt.mp hneg)] at hle
    rw [if_neg (by simpa using hneg), one_mul]
    exact hle

/-- A number that the format `Has` is rounded to itself. -/
theorem Format.Has.exists_nearest_eq (hformat : format.Sound) (hx : format.Has x) :
    ∃ negative m e, format.nearest x = .finite negative m e ∧
      (Floating.finite negative m e).value = x := by
  -- A number of the format is at most the greatest one, so rounding does not overflow.
  have hgreatest : |x| ≤ 2 ^ (format.precision + format.maxExponent) - 2 ^ format.maxExponent := by
    rcases lt_trichotomy x 0 with hneg | rfl | hpos
    · obtain ⟨n, e, hwhole⟩ := hx.neg.exists_whole hformat (neg_pos.mpr hneg)
      rw [abs_of_neg hneg]
      exact hwhole.le_greatest
    · rw [abs_zero, sub_nonneg]
      have hrange := hformat.min_le_max
      exact zpow_le_zpow_right₀ one_le_two (by omega)
    · obtain ⟨n, e, hwhole⟩ := hx.exists_whole hformat hpos
      rw [abs_of_pos hpos]
      exact hwhole.le_greatest
  have hunit : (0 : ℚ) < 2 ^ format.maxExponent := zpow_pos two_pos _
  have hnearest := abs_sub_nearest_le (d := x) hformat hx (by linarith)
  rw [sub_self, abs_zero, abs_nonpos_iff, sub_eq_zero] at hnearest
  -- Zero is rounded by itself, and any other number to a finite one of its value.
  by_cases hzero : x = 0
  · subst hzero
    exact ⟨false, 0, 0, by simp [nearest, round, zero], by simp [value]⟩
  · cases hform : format.nearest x with
    | finite negative m e => exact ⟨negative, m, e, rfl, by rw [hnearest, hform]⟩
    | nan =>
      rw [hform] at hnearest
      exact absurd hnearest hzero
    | infinite negative =>
      rw [hform] at hnearest
      exact absurd hnearest hzero

/-- What `Identifies` a number of the format is rounded to that number. -/
theorem Format.Identifies.value_nearest (hformat : format.Sound) (hx : format.Has x)
    (h : format.Identifies d x)
    (hbound : |d| < 2 ^ (format.precision + format.maxExponent) - 2 ^ format.maxExponent / 2) :
    (format.nearest d).value = x := by
  by_contra hne
  have hfar := h _ (format.has_value (format.round_holds hformat.precision_pos _ _ d.den_pos)) hne
  exact absurd hfar (not_lt.mpr (abs_sub_nearest_le hformat hx hbound))

end

end TypedOps.Floating
