import Mathlib.Tactic.NormNum
import TypedOps.Proofs.Number.Rounding

/-!
# `TypedOps.Proofs.Number.Shortest`: a short decimal is shown as itself

A double is shown by the shortest decimal that reads back as the double. If it was read from a
decimal of at most seven digits, then that decimal is the one (`NearDouble.shortest_value`). It is
found, since it is a neighbour of the double on the grid of seven digits (`NearDouble.isNeighbour`),
and nothing else of at most seven digits is, since two of them would both be much nearer to the
double than to each other (`NearDouble.unique`).

Numbers between `10 ^ -60` and `10 ^ 60` are as many as are needed here, and far enough from the
ends of the format.
-/

set_option autoImplicit false

namespace TypedOps.Floating

/-! ### Reading decimals -/

/-- The number that a `Decimal` stands for, as an exact rational. -/
def Decimal.value (d : Decimal) : ℚ := d.digits * 10 ^ d.exponent

/-- A decimal whose exponent is not extreme is read by `ofDecimal` as any fraction of its value is
rounded. -/
theorem Format.ofDecimal_eq_round (format : Format) {digits num den : Nat} {k : ℤ}
    (hdigits : digits ≠ 0) (hden : den ≠ 0) (hmin : -400 ≤ k) (hmax : k ≤ 400)
    (h : (num : ℚ) / den = digits * 10 ^ k) (negative : Bool) :
    format.ofDecimal negative digits k = format.round negative num den := by
  -- The exponent is far from the guards, so the decimal is rounded as a fraction.
  have hguard :
      ¬((decide (digits = 0) || decide (k + ((digits.log2 : ℤ) + 4) / 3 < -400)) = true) := by
    simp only [hdigits, decide_false, Bool.false_or, decide_eq_true_eq]
    omega
  have hnum : num ≠ 0 := by
    rintro rfl
    rw [Nat.cast_zero, zero_div] at h
    exact (mul_pos (Nat.cast_pos.mpr (Nat.pos_of_ne_zero hdigits)) (zpow_pos (by norm_num) k)).ne h
  rw [ofDecimal, if_neg hguard, if_neg (not_lt.mpr hmax)]
  -- The decimal is a whole number, or a fraction by a power of ten.
  split
  · next hk =>
    obtain ⟨n, rfl⟩ := Int.eq_ofNat_of_zero_le hk
    refine (round_congr format negative hnum hden one_ne_zero (h.trans ?_)).symm
    show _ = ((digits * 10 ^ n : Nat) : ℚ) / (1 : Nat)
    rw [zpow_natCast]
    push_cast
    rw [div_one]
  · next hk =>
    obtain ⟨n, rfl⟩ : ∃ n : ℕ, k = -n := ⟨(-k).toNat, by omega⟩
    refine (round_congr format negative hnum hden (Nat.pow_pos (by decide)).ne' (h.trans ?_)).symm
    show _ = (digits : ℚ) / ((10 ^ (- -(n : ℤ)).toNat : Nat) : ℚ)
    rw [neg_neg, Int.toNat_natCast, zpow_neg, zpow_natCast, div_eq_mul_inv]
    push_cast
    rfl

/-- Every decimal is a fraction of two natural numbers, as `Format.round` takes it. -/
theorem exists_fraction (digits : Nat) (k : ℤ) :
    ∃ num den : Nat, den ≠ 0 ∧ (num : ℚ) / den = digits * 10 ^ k := by
  refine ⟨(scaled 10 digits 1 (-k)).1, (scaled 10 digits 1 (-k)).2,
    (scaled_snd_pos (by decide) _ Nat.one_pos _).ne', ?_⟩
  rw [scaled_div, Nat.cast_one, div_one, zpow_neg, div_inv_eq_mul, Nat.cast_ofNat]

/-- Equal decimals are read by `ofDecimal` alike, whatever digits and exponents they are written
with. -/
theorem Format.ofDecimal_congr (format : Format) {digits digits' : Nat} {k k' : ℤ}
    (hdigits : digits ≠ 0) (hmin : -400 ≤ k) (hmax : k ≤ 400) (hmin' : -400 ≤ k')
    (hmax' : k' ≤ 400) (h : (digits : ℚ) * 10 ^ k = digits' * 10 ^ k') (negative : Bool) :
    format.ofDecimal negative digits k = format.ofDecimal negative digits' k' := by
  have hdigits' : digits' ≠ 0 := by
    rintro rfl
    rw [Nat.cast_zero, zero_mul] at h
    exact (mul_pos (Nat.cast_pos.mpr (Nat.pos_of_ne_zero hdigits))
      (zpow_pos (by norm_num) k)).ne' h
  obtain ⟨num, den, hden, hvalue⟩ := exists_fraction digits k
  rw [format.ofDecimal_eq_round hdigits hden hmin hmax hvalue,
    format.ofDecimal_eq_round hdigits' hden hmin' hmax' (hvalue.trans h)]

/-- A number of a size that doubles have all bits for, so that there is a `NearDouble` for it. -/
def Moderate (x : ℚ) : Prop := 10 ^ (-60 : ℤ) ≤ x ∧ x ≤ 10 ^ (60 : ℤ)

/-- A `Moderate` number is between two powers of two that doubles have all bits for. -/
theorem Moderate.bounds {x : ℚ} (h : Moderate x) : 2 ^ (-200 : ℤ) ≤ x ∧ x ≤ 2 ^ (200 : ℤ) := by
  refine ⟨le_trans ?_ h.1, h.2.trans ?_⟩ <;> norm_num

/-- A double with all bits, as `Format.double` holds it, and so near to a positive number that only
rounding lies between. -/
structure NearDouble (x : ℚ) (m : Nat) (e : ℤ) : Prop where
  odd : m % 2 = 1
  holds : Format.double.Holds (.finite false m e)
  near : |(m : ℚ) * 2 ^ e - x| * 2 ^ 53 ≤ x

/-- A number with a `NearDouble` is no more than twice this, nor less than half of it. -/
theorem NearDouble.le_two_mul {x : ℚ} {m : Nat} {e : ℤ} (h : NearDouble x m e) :
    x ≤ 2 * (m * 2 ^ e) ∧ m * 2 ^ e ≤ 2 * x := by
  have hnear : |(m : ℚ) * 2 ^ e - x| * 2 ≤ x := by
    refine le_trans (mul_le_mul_of_nonneg_left ?_ (abs_nonneg _)) h.near
    norm_num
  have hlow := neg_abs_le ((m : ℚ) * 2 ^ e - x)
  have hhigh := le_abs_self ((m : ℚ) * 2 ^ e - x)
  constructor <;> linarith

/-- A decimal of `Moderate` size is read as a double near to it. -/
theorem exists_ofDecimal_eq {digits : Nat} {k : ℤ} (hdigits : digits ≠ 0) (hmin : -400 ≤ k)
    (hmax : k ≤ 400) (hsize : Moderate (digits * 10 ^ k)) :
    ∃ (m : Nat) (e : ℤ), NearDouble (digits * 10 ^ k) m e ∧
      ∀ negative, Format.double.ofDecimal negative digits k = .finite negative m e := by
  have hpos : (0 : ℚ) < digits * 10 ^ k :=
    mul_pos (Nat.cast_pos.mpr (Nat.pos_of_ne_zero hdigits)) (zpow_pos (by norm_num) k)
  obtain ⟨num, den, hden, hvalue⟩ := exists_fraction digits k
  have hnum : num ≠ 0 := by
    rintro rfl
    rw [Nat.cast_zero, zero_div] at hvalue
    exact hpos.ne hvalue
  have hsteps := Format.double.steps_units hnum hden
  have hfloor := magnitude_floorLog2 hnum hden
  rw [hvalue] at hsteps hfloor
  -- A moderate number is far from the least one, so rounding errs by less than half of its last
  -- bit.
  have hleading : -200 < floorLog2 num den + 1 :=
    (zpow_lt_zpow_iff_right₀ (one_lt_two (α := ℚ))).mp (hsize.bounds.1.trans_lt hfloor.lt)
  have herror := hsteps.error_le hfloor (by
    show (-1074 : ℤ) ≤ floorLog2 num den + 1 - (53 : ℕ)
    omega)
  -- It is far from the greatest one as well, so it does not overflow.
  have hover : ¬Format.double.Overflows (Format.double.units num den).1
      (Format.double.units num den).2 := by
    refine hsteps.not_overflows Format.double_sound (Format.lt_of_le_power Format.double_sound ?_)
    exact hsize.bounds.2.trans (zpow_le_zpow_right₀ one_le_two (by decide))
  have hunits : (Format.double.units num den).2 ≠ 0 := by
    intro hzero
    rw [hzero, Nat.cast_zero, zero_mul, zero_sub, abs_neg, abs_of_pos hpos] at herror
    have hone : (1 : ℚ) < 2 ^ Format.double.precision := by norm_num [Format.double]
    exact absurd herror (not_le.mpr (lt_mul_of_one_lt_right hpos hone))
  -- The steps are brought to an odd mantissa, which changes the form and not the value.
  obtain ⟨m, e, hm, hform, heq⟩ := exists_ofDyadic_eq hunits (Format.double.units num den).1
  rw [← hform] at herror
  have hround : ∀ negative, Format.double.round negative num den = .finite negative m e :=
    fun negative => by rw [Format.round_eq _ negative hnum, if_neg hover, heq]
  have hholds : Format.double.Holds (.finite false m e) := by
    rw [← hround false]
    exact Format.round_holds (by decide) false num (Nat.pos_of_ne_zero hden)
  refine ⟨m, e, ⟨hm, hholds, herror⟩, fun negative => ?_⟩
  rw [Format.double.ofDecimal_eq_round hdigits hden hmin hmax hvalue negative, hround]

/-- A `NearDouble` is read back from its own fraction. -/
theorem NearDouble.round_eq {x : ℚ} {m : Nat} {e : ℤ} (h : NearDouble x m e) (hx : Moderate x) :
    Format.double.round false (fraction m e).1 (fraction m e).2 = .finite false m e := by
  rcases h.holds with ⟨hm, -⟩ | ⟨hodd, hbits, hmin, -⟩
  · exact absurd h.odd (by rw [hm]; decide)
  · refine Format.round_eq_finite Format.double_sound hodd hbits hmin (fraction_snd_pos m e).ne'
      (fraction_div m e) (Format.lt_of_le_power Format.double_sound ?_) false
    calc (m : ℚ) * 2 ^ e ≤ 2 * x := h.le_two_mul.2
      _ ≤ 2 * 2 ^ (200 : ℤ) := mul_le_mul_of_nonneg_left hx.bounds.2 two_pos.le
      _ = 2 ^ (201 : ℤ) := by norm_num
      _ ≤ 2 ^ ((53 : ℕ) + 971 - 1 : ℤ) := zpow_le_zpow_right₀ one_le_two (by decide)

/-- Two numbers with one `NearDouble` are the same if they are whole numbers of steps that are not
too small for them. -/
theorem NearDouble.unique {m : Nat} {e : ℤ} {step : ℚ} {a b : ℤ} (ha : NearDouble (a * step) m e)
    (hb : NearDouble (b * step) m e) (hstep : (m : ℚ) * 2 ^ e < 2 ^ 50 * step) : a = b := by
  have hpos : 0 < step := by
    have hnonneg : (0 : ℚ) ≤ m * 2 ^ e := mul_nonneg (Nat.cast_nonneg m) (zpow_pos two_pos e).le
    linarith
  -- Both are near to the double, so they are as near to each other as the two errors allow.
  have hsum : |(a : ℚ) * step - b * step| * 2 ^ 53 ≤ a * step + b * step := by
    have htriangle : |(a : ℚ) * step - b * step| ≤
        |(m : ℚ) * 2 ^ e - a * step| + |(m : ℚ) * 2 ^ e - b * step| := by
      rw [abs_sub_comm ((m : ℚ) * 2 ^ e) (a * step)]
      exact abs_sub_le _ _ _
    have hscale := mul_le_mul_of_nonneg_right htriangle (pow_pos (two_pos (α := ℚ)) 53).le
    rw [add_mul] at hscale
    linarith [ha.near, hb.near]
  have hfar : |(a : ℚ) - b| * step * 2 ^ 53 < 1 * step * 2 ^ 53 := by
    rw [← abs_of_pos hpos, ← abs_mul, abs_of_pos hpos, sub_mul]
    linarith [ha.le_two_mul.1, hb.le_two_mul.1]
  -- Less than one step apart, whole numbers of steps are the same.
  have hone : |(a : ℚ) - b| < 1 := by
    refine lt_of_mul_lt_mul_right (a := step) ?_ hpos.le
    exact lt_of_mul_lt_mul_right hfar (pow_pos two_pos 53).le
  have hint : |a - b| < 1 := by exact_mod_cast hone
  rw [Int.abs_lt_one_iff] at hint
  omega

/-! ### The search -/

/-- The two neighbours of a fraction on a grid, by their numbers of steps: `scaled` to the grid, the
fraction lies between them. -/
def IsNeighbour (num den : Nat) (k : ℤ) (n : Nat) : Prop :=
  n = (scaled 10 num den k).1 / (scaled 10 num den k).2 ∨
    n = (scaled 10 num den k).1 / (scaled 10 num den k).2 + 1

/-- The two neighbours are tried by `nearestOnGrid?` in one order or in the other, the nearer one
first. -/
theorem exists_nearestOnGrid?_eq (reads : Decimal → Bool) (num den : Nat) (k : ℤ) :
    ∃ n n', (∀ i, IsNeighbour num den k i ↔ i = n ∨ i = n') ∧
      nearestOnGrid? reads num den k =
        if reads ⟨n, k⟩ then some ⟨n, k⟩ else if reads ⟨n', k⟩ then some ⟨n', k⟩ else none := by
  have hscaled : scaleDown num den k = scaled 10 num den k := rfl
  simp only [nearestOnGrid?, hscaled]
  split
  · exact ⟨_, _, fun i => Iff.rfl, rfl⟩
  · exact ⟨_, _, fun i => or_comm, rfl⟩

/-- A neighbour that reads back is found by `nearestOnGrid?` if there is one. -/
theorem nearestOnGrid?_cases (reads : Decimal → Bool) (num den : Nat) (k : ℤ) :
    (∃ n, IsNeighbour num den k n ∧ reads ⟨n, k⟩ = true ∧
        nearestOnGrid? reads num den k = some ⟨n, k⟩) ∨
      (nearestOnGrid? reads num den k = none ∧
        ∀ n, IsNeighbour num den k n → reads ⟨n, k⟩ = false) := by
  obtain ⟨n, n', hboth, heq⟩ := exists_nearestOnGrid?_eq reads num den k
  rw [heq]
  by_cases hfirst : reads ⟨n, k⟩ = true
  · exact .inl ⟨n, (hboth n).mpr (.inl rfl), hfirst, if_pos hfirst⟩
  by_cases hsecond : reads ⟨n', k⟩ = true
  · exact .inl ⟨n', (hboth n').mpr (.inr rfl), hsecond, by rw [if_neg hfirst, if_pos hsecond]⟩
  · refine .inr ⟨by rw [if_neg hfirst, if_neg hsecond], fun i hi => ?_⟩
    rcases (hboth i).mp hi with rfl | rfl
    · exact Bool.eq_false_iff.mpr hfirst
    · exact Bool.eq_false_iff.mpr hsecond

/-- The search of `shortestFrom` ends with something that has a property, if every hit has it and
there is one on the grid of seven digits. -/
theorem shortestFrom_of_hit {reads : Decimal → Bool} {num den : Nat} {top : ℤ}
    {P : Decimal → Prop}
    (hhits : ∀ (count : Nat) n, 0 < count → count ≤ 7 → IsNeighbour num den (top - count + 1) n →
      reads ⟨n, top - count + 1⟩ = true → P ⟨n, top - count + 1⟩)
    {n : Nat} (hn : IsNeighbour num den (top - 7 + 1) n) (hread : reads ⟨n, top - 7 + 1⟩ = true)
    {fuel count : Nat} (hpos : 0 < count) (hcount : count ≤ 7) (hfuel : 7 < fuel + count) :
    P (shortestFrom reads num den top fuel count) := by
  -- The induction is on the fuel, which is enough for the grids up to the one of seven digits.
  induction fuel generalizing count with
  | zero => omega
  | succ fuel ih =>
    rw [shortestFrom]
    rcases nearestOnGrid?_cases reads num den (top - count + 1) with
      ⟨i, hi, hreads, hfound⟩ | ⟨hnone, hall⟩
    · rw [hfound]
      exact hhits count i hpos hcount hi hreads
    · rw [hnone]
      -- On the grid of seven digits there is a hit, so the search has not come so far yet.
      have hless : count ≠ 7 := by
        rintro rfl
        exact Bool.false_ne_true ((hall n hn).symm.trans hread)
      exact ih (by omega) (by omega) (by omega)

/-! ### Seven digits -/

section
variable {m digits : Nat} {e k top : ℤ}

/-- A number with a `Magnitude` is less than ten million steps of the grid of seven digits around
it. -/
theorem lt_steps {x : ℚ} (htop : Magnitude 10 x top) : x < 10 ^ 7 * 10 ^ (top - 7 + 1) := by
  have hlt := htop.lt
  have hexponent : top + 1 = 7 + (top - 7 + 1) := by omega
  rw [hexponent, zpow_add₀ (by norm_num)] at hlt
  exact hlt

/-- A decimal of at most seven digits is a whole number of steps of the grid of seven digits around
its `NearDouble`. -/
theorem NearDouble.exists_steps (h : NearDouble (digits * 10 ^ k) m e) (hdigits : digits ≤ 10 ^ 7)
    (htop : Magnitude 10 (m * 2 ^ e) top) :
    ∃ n : Nat, (digits : ℚ) * 10 ^ k = n * 10 ^ (top - 7 + 1) := by
  have hten : (10 : ℚ) ≠ 0 := by norm_num
  by_cases hfine : top ≤ k + 6
  · -- The steps of the decimal are no finer.
    obtain ⟨i, hi⟩ := Int.eq_ofNat_of_zero_le (sub_nonneg.mpr hfine)
    refine ⟨digits * 10 ^ i, ?_⟩
    have hk : k = (top - 7 + 1) + i := by omega
    rw [hk, zpow_add₀ hten, zpow_natCast, Nat.cast_mul, Nat.cast_pow, Nat.cast_ofNat]
    ring
  · -- The double has one digit more in front, so all seven were nines, or carried over.
    have hpow : (0 : ℚ) < 10 ^ k := zpow_pos (by norm_num) k
    have hnear : ((m : ℚ) * 2 ^ e - digits * 10 ^ k) * 2 ^ 53 ≤ digits * 10 ^ k :=
      (mul_le_mul_of_nonneg_right (le_abs_self _) (by norm_num)).trans h.near
    have hseven : (10 : ℚ) ^ (k + 7) = 10 ^ 7 * 10 ^ k := by
      rw [zpow_add₀ hten, mul_comm]
      rfl
    have hreached : (10 : ℚ) ^ 7 * 10 ^ k ≤ m * 2 ^ e := by
      rw [← hseven]
      refine le_trans ?_ htop.le
      exact zpow_le_zpow_right₀ (by norm_num) (by omega)
    have hall : digits = 10 ^ 7 := by
      refine le_antisymm hdigits (not_lt.mp fun hless => ?_)
      have hnines : (digits : ℚ) ≤ 10 ^ 7 - 1 := by
        rw [le_sub_iff_add_le]
        exact_mod_cast hless
      have hscale := mul_le_mul_of_nonneg_right hnines hpow.le
      linarith
    have htop' : top = k + 7 := by
      have hupper : (10 : ℚ) ^ top < 10 ^ (k + 7 + 1) := by
        have hlow := htop.le
        rw [zpow_add_one₀ hten, hseven]
        rw [hall, Nat.cast_pow, Nat.cast_ofNat] at hnear
        rw [Nat.cast_ofNat] at hlow
        linarith
      have hlt := (zpow_lt_zpow_iff_right₀ (by norm_num : (1 : ℚ) < 10)).mp hupper
      omega
    refine ⟨10 ^ 6, ?_⟩
    have hexponent : top - 7 + 1 = k + 1 := by omega
    rw [hall, hexponent, zpow_add_one₀ hten]
    push_cast
    ring

/-- A decimal of at most seven digits is one of the two neighbours of its `NearDouble` on the grid
of seven digits. -/
theorem NearDouble.isNeighbour {x : ℚ} (h : NearDouble x m e)
    (htop : Magnitude 10 (m * 2 ^ e) top) {n : Nat} (hn : x = n * 10 ^ (top - 7 + 1)) :
    IsNeighbour (fraction m e).1 (fraction m e).2 (top - 7 + 1) n := by
  obtain ⟨hbelow, habove⟩ := scaled_floor (b := 10) (by decide) (fraction m e).1
    (fraction_snd_pos m e) (top - 7 + 1)
  rw [fraction_div, Nat.cast_ofNat] at hbelow habove
  have hstep : (0 : ℚ) < 10 ^ (top - 7 + 1) := zpow_pos (by norm_num) _
  -- The double is less than a step away.
  have hsize := lt_steps htop
  have hlow := neg_abs_le ((m : ℚ) * 2 ^ e - x)
  have hhigh := le_abs_self ((m : ℚ) * 2 ^ e - x)
  have hnear := h.near
  have htwice := h.le_two_mul.1
  have hless : (n : ℚ) < ((scaled 10 (fraction m e).1 (fraction m e).2 (top - 7 + 1)).1 /
      (scaled 10 (fraction m e).1 (fraction m e).2 (top - 7 + 1)).2 + 1 + 1 : Nat) := by
    refine lt_of_mul_lt_mul_right (a := 10 ^ (top - 7 + 1)) ?_ hstep.le
    rw [← hn, Nat.cast_succ, add_mul, one_mul]
    linarith
  have hmore : (((scaled 10 (fraction m e).1 (fraction m e).2 (top - 7 + 1)).1 /
      (scaled 10 (fraction m e).1 (fraction m e).2 (top - 7 + 1)).2 : Nat) : ℚ) <
        (n + 1 : Nat) := by
    refine lt_of_mul_lt_mul_right (a := 10 ^ (top - 7 + 1)) ?_ hstep.le
    rw [Nat.cast_succ, add_mul, one_mul, ← hn]
    linarith
  have hless' := Nat.cast_lt.mp hless
  have hmore' := Nat.cast_lt.mp hmore
  unfold IsNeighbour
  omega

/-- Any hit on a coarser grid has the same `NearDouble`, too, so a shorter decimal is found only if
it is worth the same. -/
theorem NearDouble.of_hit {x : ℚ} (h : NearDouble x m e) (hx : Moderate x)
    (htop : Magnitude 10 (m * 2 ^ e) top) (hlow : -54 ≤ top) (hhigh : top ≤ 50) {j : ℤ} {n : Nat}
    (hj : top - 7 + 1 ≤ j) (hjtop : j ≤ top)
    (hn : IsNeighbour (fraction m e).1 (fraction m e).2 j n)
    (hread : Format.double.ofDecimal false n j =
      Format.double.round false (fraction m e).1 (fraction m e).2) :
    NearDouble (n * 10 ^ j) m e := by
  have hten : (1 : ℚ) < 10 := by norm_num
  obtain ⟨hbelow, habove⟩ := scaled_floor (b := 10) (by decide) (fraction m e).1
    (fraction_snd_pos m e) j
  rw [fraction_div, Nat.cast_ofNat] at hbelow habove
  have hstep : (0 : ℚ) < 10 ^ j := zpow_pos (by norm_num) _
  have hleading : (10 : ℚ) ^ j ≤ m * 2 ^ e :=
    (zpow_le_zpow_right₀ hten.le hjtop).trans htop.le
  -- There is at least one step below the double.
  have hsome : 0 < (scaled 10 (fraction m e).1 (fraction m e).2 j).1 /
      (scaled 10 (fraction m e).1 (fraction m e).2 j).2 := by
    refine Nat.pos_of_ne_zero fun hzero => ?_
    rw [hzero, zero_add, Nat.cast_one, one_mul] at habove
    exact absurd hleading (not_le.mpr habove)
  have hpos : 0 < n := by
    rcases hn with rfl | rfl <;> omega
  have hupper : (n : ℚ) * 10 ^ j ≤ 2 * (m * 2 ^ e) := by
    have hle : (n : ℚ) ≤ ((scaled 10 (fraction m e).1 (fraction m e).2 j).1 /
        (scaled 10 (fraction m e).1 (fraction m e).2 j).2 : Nat) + 1 := by
      have hnat : n ≤ (scaled 10 (fraction m e).1 (fraction m e).2 j).1 /
          (scaled 10 (fraction m e).1 (fraction m e).2 j).2 + 1 := by
        rcases hn with rfl | rfl <;> omega
      exact_mod_cast hnat
    have hscale := mul_le_mul_of_nonneg_right hle hstep.le
    rw [add_mul, one_mul] at hscale
    linarith
  have hsize : Moderate (n * 10 ^ j) := by
    constructor
    · calc (10 : ℚ) ^ (-60 : ℤ) ≤ 10 ^ j := zpow_le_zpow_right₀ hten.le (by omega)
        _ ≤ n * 10 ^ j := le_mul_of_one_le_left hstep.le (Nat.one_le_cast.mpr hpos)
    · calc (n : ℚ) * 10 ^ j ≤ 2 * (m * 2 ^ e) := hupper
        _ ≤ 10 * 10 ^ (top + 1) :=
          mul_le_mul (by norm_num) htop.lt.le (by positivity) (by norm_num)
        _ = 10 ^ (top + 2) := by rw [← zpow_one_add₀ (by norm_num)]; congr 1; omega
        _ ≤ 10 ^ (60 : ℤ) := zpow_le_zpow_right₀ hten.le (by omega)
  obtain ⟨m', e', hnear, hform⟩ := exists_ofDecimal_eq hpos.ne' (by omega) (by omega) hsize
  rw [hform, h.round_eq hx] at hread
  cases hread
  exact hnear

/-- A double that a decimal of at most seven digits was read as is shown by that decimal, the
`shortest` one. -/
theorem NearDouble.shortest_value (h : NearDouble (digits * 10 ^ k) m e) (hpos : digits ≠ 0)
    (hdigits : digits ≤ 10 ^ 7) (hlow : -53 ≤ k) (hhigh : k ≤ 40)
    (hread : Format.double.ofDecimal false digits k = .finite false m e) :
    (shortest (fraction m e).1 (fraction m e).2).value = digits * 10 ^ k := by
  have hten : (1 : ℚ) < 10 := by norm_num
  have hstep : (0 : ℚ) < 10 ^ k := zpow_pos (by norm_num) k
  have hone : (1 : ℚ) ≤ digits := Nat.one_le_cast.mpr (Nat.one_le_iff_ne_zero.mpr hpos)
  have hbelow : (10 : ℚ) ^ k ≤ digits * 10 ^ k := le_mul_of_one_le_left hstep.le hone
  have habove : (digits : ℚ) * 10 ^ k ≤ 10 ^ (k + 7) := by
    rw [zpow_add₀ (by norm_num), mul_comm]
    exact mul_le_mul_of_nonneg_left (by exact_mod_cast hdigits) hstep.le
  have hsize : Moderate (digits * 10 ^ k) :=
    ⟨(zpow_le_zpow_right₀ hten.le (by omega)).trans hbelow,
      habove.trans (zpow_le_zpow_right₀ hten.le (by omega))⟩
  have hm : m ≠ 0 := by
    rintro rfl
    exact absurd h.odd (by decide)
  have htop : Magnitude 10 (m * 2 ^ e) (floorLog10 (fraction m e).1 (fraction m e).2) := by
    rw [← fraction_div]
    exact magnitude_floorLog10 (fraction_fst_ne_zero hm e) (fraction_snd_pos m e).ne'
  rw [shortest]
  generalize floorLog10 (fraction m e).1 (fraction m e).2 = top at htop ⊢
  -- The double has its first digit about where the decimal has.
  obtain ⟨htwice, hhalf⟩ := h.le_two_mul
  have htoplow : k - 1 < top + 1 := by
    refine (zpow_lt_zpow_iff_right₀ hten).mp (lt_of_le_of_lt ?_ htop.lt)
    rw [zpow_sub_one₀ (by norm_num)]
    linarith
  have htophigh : top < k + 7 + 1 := by
    refine (zpow_lt_zpow_iff_right₀ hten).mp (lt_of_le_of_lt htop.le ?_)
    have hpositive : (0 : ℚ) < 10 ^ (k + 7) := zpow_pos (by norm_num) _
    rw [zpow_add_one₀ (by norm_num)]
    linarith
  obtain ⟨n, hn⟩ := h.exists_steps hdigits htop
  have hreads : Format.double.ofDecimal false n (top - 7 + 1) = .finite false m e := by
    rw [← hread]
    exact (Format.double.ofDecimal_congr hpos (by omega) (by omega) (by omega) (by omega) hn
      false).symm
  refine shortestFrom_of_hit (P := fun d => d.value = digits * 10 ^ k) ?_
    (h.isNeighbour htop hn) ?_ Nat.one_pos (by omega) (by omega)
  · intro count i hcount hseven hi hhit
    have hnear := h.of_hit hsize htop (by omega) (by omega) (by omega) (by omega) hi
      (beq_iff_eq.mp hhit)
    -- Both are whole numbers of steps of the grid of seven digits.
    have hsteps : (i : ℚ) * 10 ^ (top - count + 1) =
        ((i * 10 ^ (7 - count) : Nat) : ℤ) * 10 ^ (top - 7 + 1) := by
      have hexponent : top - count + 1 = ((7 - count : Nat) : ℤ) + (top - 7 + 1) := by omega
      rw [hexponent, zpow_add₀ (by norm_num), zpow_natCast]
      push_cast
      ring
    have hown : (digits : ℚ) * 10 ^ k = ((n : ℕ) : ℤ) * 10 ^ (top - 7 + 1) := hn
    rw [hsteps] at hnear
    rw [hown] at h
    have hsize' : (m : ℚ) * 2 ^ e < 2 ^ 50 * 10 ^ (top - 7 + 1) := by
      refine (lt_steps htop).trans ?_
      exact mul_lt_mul_of_pos_right (by norm_num) (zpow_pos (by norm_num) _)
    show (i : ℚ) * 10 ^ (top - count + 1) = _
    rw [hsteps, hown, hnear.unique h hsize']
  · rw [hreads, h.round_eq hsize]
    exact beq_self_eq_true _

end

end TypedOps.Floating
