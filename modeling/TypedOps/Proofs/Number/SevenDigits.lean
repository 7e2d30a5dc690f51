import TypedOps.Proofs.Number.DecimalText
import TypedOps.Proofs.Number.Neighbours

/-!
# `TypedOps.Proofs.Number.SevenDigits`: single precision in seven digits

Rounded to seven significant digits, a number of single precision is shown by the decimal it was
rounded to (`exists_denoted?_significant`). Not every number is identified by so few digits, but one
that any decimal of seven digits identifies is identified by the one that is shown
(`identifies_rounded`).

That decimal is a nearest one (`abs_sub_rounded_le`), so there would be nothing to prove if the
distances to the two neighbours were the same. Where they differ, at the powers of two, the shown
decimal could be the nearer one and on the side of the nearer neighbour. That this is not so is a
fact about the powers of two of the format (`powerSteps_rest`). Past the greatest number there is
no neighbour at all, so decimals from the next power of two on do not count.
-/

set_option autoImplicit false

namespace TypedOps.Floating

/-- A decimal of so many digits as `count` says, not counting zeros at either end. -/
def HasDigits (count : Nat) (d : ℚ) : Prop := ∃ n j : ℤ, |n| < 10 ^ count ∧ d = n * 10 ^ j

/-- A number of single precision that some decimal with `HasDigits` for seven identifies. -/
def InSevenDigits (x : ℚ) : Prop :=
  ∃ d, HasDigits 7 d ∧ |d| < 2 ^ (128 : ℤ) ∧ Format.single.Identifies d x

/-! ### Grids of seven digits -/

section
variable {x : ℚ} {q : Nat} {top : ℤ}

/-- There is no decimal of seven digits between two neighbours on a grid of seven digits, which is
where `Rounded` puts a number. -/
theorem le_or_le_of_digits {n : Nat} (hn : 10 ^ 6 ≤ n) (k : ℤ) {i j : ℤ} (hi : |i| ≤ 10 ^ 7) :
    (i : ℚ) * 10 ^ j ≤ n * 10 ^ k ∨ ((n : ℚ) + 1) * 10 ^ k ≤ i * 10 ^ j := by
  have hten : (10 : ℚ) ≠ 0 := by norm_num
  have hstep : (0 : ℚ) < 10 ^ k := zpow_pos (by norm_num) k
  by_cases hj : k ≤ j
  · -- The decimal is a point of the grid.
    obtain ⟨c, rfl⟩ : ∃ c : ℕ, j = k + c := ⟨(j - k).toNat, by omega⟩
    have hpoint : (i : ℚ) * 10 ^ (k + (c : ℤ)) = ((i * 10 ^ c : ℤ) : ℚ) * 10 ^ k := by
      rw [zpow_add₀ hten, zpow_natCast]
      push_cast
      ring
    rw [hpoint]
    rcases le_or_gt (i * 10 ^ c) (n : ℤ) with hle | hgt
    · exact .inl (mul_le_mul_of_nonneg_right (by exact_mod_cast hle) hstep.le)
    · exact .inr (mul_le_mul_of_nonneg_right (by exact_mod_cast hgt) hstep.le)
  -- The decimal has a finer place, so its seven digits do not reach the grid.
  · left
    calc (i : ℚ) * 10 ^ j ≤ 10 ^ 7 * 10 ^ j := by
          refine mul_le_mul_of_nonneg_right ?_ (zpow_pos (by norm_num) j).le
          exact_mod_cast (le_abs_self i).trans hi
      _ ≤ 10 ^ 7 * 10 ^ (k - 1) :=
        mul_le_mul_of_nonneg_left (zpow_le_zpow_right₀ (by norm_num) (by omega)) (by norm_num)
      _ = 10 ^ 6 * 10 ^ k := by
        rw [zpow_sub_one₀ hten]
        ring
      _ ≤ n * 10 ^ k := mul_le_mul_of_nonneg_right (by exact_mod_cast hn) hstep.le

/-- No decimal of seven digits is nearer to a number than the `Rounded` one. -/
theorem abs_sub_rounded_le (htop : Magnitude 10 x top) (hq : Rounded 10 x (top - 6) q) {i j : ℤ}
    (hi : |i| ≤ 10 ^ 7) : |(q : ℚ) * 10 ^ (top - 6) - x| ≤ |(i : ℚ) * 10 ^ j - x| := by
  refine hq.abs_sub_le (b := 10) (by decide) htop fun hfine => ⟨by omega, ?_⟩
  calc |(i : ℚ)| * (10 : ℕ) ^ j ≤ 10 ^ 7 * 10 ^ j := by
        refine mul_le_mul_of_nonneg_right ?_ (zpow_pos (by norm_num) j).le
        exact_mod_cast hi
    _ = (10 : ℚ) ^ (7 + j) := by rw [zpow_add₀ (by norm_num)]; rfl
    _ ≤ (10 : ℕ) ^ top := zpow_le_zpow_right₀ (by norm_num) (by omega)

/-- The leading power is a million steps of the grid of seven digits, whose unit stands six places
behind the `Magnitude`. -/
theorem leading_eq (top : ℤ) : ((10 : ℕ) : ℚ) ^ top = 10 ^ 6 * 10 ^ (top - 6) := by
  have htop : top = 6 + (top - 6) := by omega
  rw [Nat.cast_ofNat]
  nth_rewrite 1 [htop]
  exact zpow_add₀ (by norm_num) 6 (top - 6)

/-- The `Rounded` decimal has seven digits itself, or is a power of ten. -/
theorem rounded_bounds (htop : Magnitude 10 x top) (hq : Rounded 10 x (top - 6) q) :
    10 ^ 6 ≤ q ∧ q ≤ 10 ^ 7 := by
  have hstep : (0 : ℚ) < 10 ^ (top - 6) := zpow_pos (by norm_num) _
  obtain ⟨hlow, hhigh⟩ := hq.mem_Icc (b := 10) (by decide) htop (by omega)
  rw [leading_eq top] at hlow
  rw [zpow_add_one₀ (by norm_num), leading_eq top, mul_right_comm] at hhigh
  constructor
  · exact_mod_cast le_of_mul_le_mul_right hlow hstep
  · exact_mod_cast le_of_mul_le_mul_right hhigh hstep

end

/-! ### Powers of two -/

section
variable {x : ℚ} {q b t r : Nat} {top : ℤ}

/-- A number that is `Rounded` down is rounded to the lower of its neighbours on the grid, and that
is not the farther one. -/
theorem rounded_eq_lower {k : ℤ} (hq : Rounded 10 x k q) (hlower : (t : ℚ) * 10 ^ k ≤ x)
    (hupper : x < (t + 1) * 10 ^ k) (hbelow : (q : ℚ) * 10 ^ k < x) :
    q = t ∧ x - t * 10 ^ k ≤ (t + 1) * 10 ^ k - x := by
  have hstep : (0 : ℚ) < 10 ^ k := zpow_pos (by norm_num) k
  have hdown := hq.abs_sub_le_steps (b := 10) (by decide) t
  have hup := hq.abs_sub_le_steps (b := 10) (by decide) (t + 1)
  push_cast at hdown hup
  rw [abs_sub_comm, abs_of_pos (sub_pos.mpr hbelow)] at hdown hup
  rw [abs_sub_comm, abs_of_nonneg (sub_nonneg.mpr hlower)] at hdown
  rw [abs_of_pos (sub_pos.mpr hupper)] at hup
  have hle : t ≤ q := Nat.cast_le.mp (le_of_mul_le_mul_right (by linarith) hstep)
  have hlt : q < t + 1 := by exact_mod_cast lt_of_mul_lt_mul_right (hbelow.trans hupper) hstep.le
  obtain rfl : q = t := by omega
  exact ⟨rfl, hup⟩

/-- Suppose that a number was rounded down, although a decimal above is within half of its
`2 ^ 23`-th part. Then it is within a quarter below, if one of the two is so for the neighbours on
the grid, `t` and `t + 1` steps from zero. -/
theorem sub_rounded_lt (hr : r < b) (hx : x * b = (b * t + r : ℕ) * 10 ^ (top - 6))
    (htop : Magnitude 10 x top) (hq : Rounded 10 x (top - 6) q)
    (hbelow : (q : ℚ) * 10 ^ (top - 6) < x) {n j : ℤ} (hn : |n| ≤ 10 ^ 7)
    (habove : x < n * 10 ^ j) (hnear : 2 ^ 24 * (n * 10 ^ j - x) < x)
    (hrest : 2 * r ≤ b → 2 ^ 25 * r < b * t + r ∨ b * t + r ≤ 2 ^ 24 * (b - r)) :
    2 ^ 25 * (x - q * 10 ^ (top - 6)) < x := by
  have hstep : (0 : ℚ) < 10 ^ (top - 6) := zpow_pos (by norm_num) _
  have hpos : (0 : ℚ) < b := Nat.cast_pos.mpr (by omega)
  -- How far it is to the two neighbours.
  have hlow : (x - t * 10 ^ (top - 6)) * b = r * 10 ^ (top - 6) := by
    rw [sub_mul, hx]
    push_cast
    ring
  have hhigh : ((t + 1) * 10 ^ (top - 6) - x) * b = (b - r) * 10 ^ (top - 6) := by
    rw [sub_mul, hx]
    push_cast
    ring
  have hlower : (t : ℚ) * 10 ^ (top - 6) ≤ x := by
    rw [← sub_nonneg, ← mul_nonneg_iff_of_pos_right hpos, hlow]
    exact mul_nonneg (Nat.cast_nonneg _) hstep.le
  have hupper : x < (t + 1) * 10 ^ (top - 6) := by
    rw [← sub_pos, ← mul_pos_iff_of_pos_right hpos, hhigh]
    exact mul_pos (sub_pos.mpr (Nat.cast_lt.mpr hr)) hstep
  obtain ⟨rfl, hnearer⟩ := rounded_eq_lower hq hlower hupper hbelow
  -- The decimal above is not below the upper one.
  have hnext := (le_or_le_of_digits (rounded_bounds htop hq).1 (top - 6) (j := j) hn).resolve_left
    (by linarith)
  have hhalf : 2 * r ≤ b := by
    have hscale : (r : ℚ) * 10 ^ (top - 6) ≤ (b - r) * 10 ^ (top - 6) := by
      rw [← hlow, ← hhigh]
      exact mul_le_mul_of_nonneg_right hnearer hpos.le
    have hle := le_of_mul_le_mul_right hscale hstep
    rw [le_sub_iff_add_le, ← two_mul] at hle
    exact_mod_cast hle
  rcases hrest hhalf with hquarter | hfar
  · have hcast : 2 ^ 25 * (r : ℚ) < (b * q + r : ℕ) := by exact_mod_cast hquarter
    have hscale := mul_lt_mul_of_pos_right hcast hstep
    rw [mul_assoc, ← hlow, ← hx, ← mul_assoc, mul_lt_mul_iff_of_pos_right hpos] at hscale
    linarith
  · have hcast : ((b * q + r : ℕ) : ℚ) ≤ 2 ^ 24 * (b - r) := by
      rw [← Nat.cast_sub hr.le]
      exact_mod_cast hfar
    have hscale := mul_le_mul_of_nonneg_right hcast hstep.le
    rw [mul_assoc, ← hhigh, ← hx, ← mul_assoc, mul_le_mul_iff_of_pos_right hpos] at hscale
    linarith

end

/-- The power `2 ^ i` divided by the last place of seven digits, as a fraction. -/
def powerSteps (i : ℤ) : Nat × Nat :=
  let (num, den) := fraction 1 i
  scaled 10 num den (floorLog10 num den - 6)

/-- For every power of two with the last place of single precision, one of the two neighbours on the
grid is near enough. This is the finite check behind `sub_rounded_lt`. -/
theorem powerSteps_rest : ∀ c ∈ List.range 253,
    let (a, b) := powerSteps ((c : ℤ) - 125)
    2 * (a % b) ≤ b → 2 ^ 25 * (a % b) < a ∨ a ≤ 2 ^ 24 * (b - a % b) := by
  decide +kernel

/-- A power of two that is `Rounded` down is rounded to within a quarter of the unit of its last
place, unless no decimal above is within half. The table of `powerSteps` has been checked for this.
-/
theorem power_sub_rounded_lt {i top : ℤ} {q : Nat} (hmin : -125 ≤ i) (hmax : i ≤ 127)
    (htop : Magnitude 10 (2 ^ i) top) (hq : Rounded 10 (2 ^ i) (top - 6) q)
    (hbelow : (q : ℚ) * 10 ^ (top - 6) < 2 ^ i) {n j : ℤ} (hn : |n| ≤ 10 ^ 7)
    (habove : (2 : ℚ) ^ i < n * 10 ^ j) (hnear : 2 ^ 24 * ((n : ℚ) * 10 ^ j - 2 ^ i) < 2 ^ i) :
    2 ^ 25 * (2 ^ i - (q : ℚ) * 10 ^ (top - 6)) < 2 ^ i := by
  -- `powerSteps` is the scaled fraction of the power of two, so the table can be looked up for it.
  have hvalue : ((fraction 1 i).1 : ℚ) / (fraction 1 i).2 = 2 ^ i := by
    rw [fraction_div, Nat.cast_one, one_mul]
  have hlog : floorLog10 (fraction 1 i).1 (fraction 1 i).2 = top := by
    refine Magnitude.unique (b := 10) (by decide) ?_ htop
    rw [← hvalue]
    exact magnitude_floorLog10 (fraction_fst_ne_zero one_ne_zero i) (fraction_snd_pos 1 i).ne'
  have hsteps : powerSteps i = scaled 10 (fraction 1 i).1 (fraction 1 i).2 (top - 6) := by
    rw [← hlog]
    rfl
  have hden : 0 < (powerSteps i).2 := by
    rw [hsteps]
    exact scaled_snd_pos (by decide) _ (fraction_snd_pos 1 i) _
  have hwhole : (2 : ℚ) ^ i * (powerSteps i).2 = (powerSteps i).1 * 10 ^ (top - 6) := by
    have hdiv := scaled_div 10 (fraction 1 i).1 (fraction 1 i).2 (top - 6)
    rw [← hsteps, hvalue, div_eq_div_iff (Nat.cast_pos.mpr hden).ne'
      (zpow_pos (by norm_num) _).ne', Nat.cast_ofNat] at hdiv
    exact hdiv.symm
  -- The exponents are finitely many, and the check has been evaluated for all of them.
  have hcheck := powerSteps_rest (i + 125).toNat (List.mem_range.mpr (by omega))
  have hindex : (((i + 125).toNat : ℕ) : ℤ) - 125 = i := by omega
  rw [hindex] at hcheck
  have hsplit := Nat.div_add_mod (powerSteps i).1 (powerSteps i).2
  -- What is left is the general bound, with the rest of the division in place of the check.
  refine sub_rounded_lt (t := (powerSteps i).1 / (powerSteps i).2)
    (Nat.mod_lt (powerSteps i).1 hden) ?_ htop hq hbelow hn habove hnear ?_
  · rw [hsplit]
    exact hwhole
  · rw [hsplit]
    exact hcheck

/-! ### The numbers of single precision -/

section
variable {x : ℚ} {q : Nat} {top : ℤ}

/-- The last decimal of seven digits before the first power of two past the format is less than the
greatest number, and the next one is past that power. The bound of `rounded_le` is that decimal. -/
theorem digits_le_or_le {i j : ℤ} (hi : |i| ≤ 10 ^ 7) :
    (i : ℚ) * 10 ^ j ≤ 3402823 * 10 ^ (32 : ℤ) ∨ 3402824 * 10 ^ (32 : ℤ) ≤ (i : ℚ) * 10 ^ j := by
  have hgap := le_or_le_of_digits (n := 3402823) (by decide) 32 (j := j) hi
  norm_num at hgap ⊢
  exact hgap

/-- The `Rounded` decimal of a number of single precision does not go past the first power of two
past the format. -/
theorem rounded_le (hx : Format.single.Has x) (htop : Magnitude 10 x top)
    (hq : Rounded 10 x (top - 6) q) : (q : ℚ) * 10 ^ (top - 6) ≤ 3402823 * 10 ^ (32 : ℤ) := by
  obtain ⟨n, e, hwhole⟩ := hx.exists_whole Format.single_sound (htop.pos (by decide))
  have hgreatest : x ≤ 2 ^ (128 : ℤ) - 2 ^ (104 : ℤ) := hwhole.le_greatest
  have hdigits := (rounded_bounds htop hq).2
  have hq' : |(q : ℤ)| ≤ 10 ^ 7 := by
    rw [Nat.abs_cast]
    exact_mod_cast hdigits
  refine (digits_le_or_le (j := top - 6) hq').resolve_right fun hpast => ?_
  rw [Int.cast_natCast] at hpast
  -- The last decimal before the power would have been nearer.
  have hnearest := abs_sub_rounded_le htop hq (i := 3402823) (j := 32) (by decide)
  norm_num at hgreatest hpast hnearest
  rw [abs_of_nonneg (by linarith), le_abs] at hnearest
  rcases hnearest with hnear | hnear <;> linarith

/-- No decimal of seven digits that is less than the first power of two past the format identifies
the greatest number, so a `Whole` number that has one also has a neighbour above. -/
theorem has_next_of_digits {n : Nat} {e : ℤ} (h : Format.single.Whole x n e) {i j : ℤ}
    (hi : |i| < 10 ^ 7) (hrange : |(i : ℚ) * 10 ^ j| < 2 ^ (128 : ℤ))
    (hnear : x - Format.single.gapBelow n e / 2 < i * 10 ^ j) : Format.single.Has (x + 2 ^ e) := by
  refine (h.has_above Format.single_sound).resolve_right ?_
  rintro ⟨hlast, rfl⟩
  have hgreatest : x + 2 ^ (104 : ℤ) = 2 ^ (128 : ℤ) := hlast
  have hgap : Format.single.gapBelow n 104 ≤ 2 ^ (104 : ℤ) := Format.single.gapBelow_le n 104
  have hlow : x - Format.single.gapBelow n 104 / 2 < i * 10 ^ j := hnear
  have hhigh := (le_abs_self _).trans_lt hrange
  norm_num at hgreatest hgap hhigh
  rcases digits_le_or_le (j := j) hi.le with hle | hge
  · norm_num at hle
    linarith
  · norm_num at hge
    linarith

/-- A decimal of seven digits that `Identifies` a number is not the only one: the rounded one does,
too. -/
theorem identifies_rounded (hx : Format.single.Has x) (htop : Magnitude 10 x top)
    (hq : Rounded 10 x (top - 6) q) (hsome : InSevenDigits x) :
    Format.single.Identifies (q * 10 ^ (top - 6)) x := by
  obtain ⟨_, ⟨i, j, hi, rfl⟩, hrange, hd⟩ := hsome
  obtain ⟨n, e, hwhole⟩ := hx.exists_whole Format.single_sound (htop.pos (by decide))
  rw [hwhole.identifies_iff Format.single_sound] at hd ⊢
  have hnearest := abs_sub_rounded_le htop hq (j := j) hi.le
  have hbelow := Format.single.gapBelow_pos n e
  have hunit := Format.single.gapBelow_le n e
  obtain ⟨hlower, hupper⟩ := hd
  replace hupper := hupper (has_next_of_digits hwhole hi hrange hlower)
  rcases le_or_gt x (q * 10 ^ (top - 6)) with habove | hunder
  · -- Rounded up, and no farther than the other decimal, wherever that is.
    rw [abs_of_nonneg (sub_nonneg.mpr habove), le_abs] at hnearest
    refine ⟨by linarith, fun _ => ?_⟩
    rcases hnearest with hnear | hnear <;> linarith
  refine ⟨?_, fun _ => by linarith⟩
  rw [abs_sub_comm, abs_of_pos (sub_pos.mpr hunder), le_abs] at hnearest
  rcases hnearest with hnear | hnear
  swap
  · linarith
  -- Rounded down, and no farther than the other decimal, which is above.
  by_cases hhalf : n = 2 ^ 23 ∧ -149 < e
  · have hgap : Format.single.gapBelow n e = 2 ^ e / 2 :=
      (if_pos hhalf).trans (zpow_sub_one₀ two_ne_zero e)
    have hpower : x = 2 ^ (23 + e) := by
      rw [hwhole.eq, hhalf.1, zpow_add₀ two_ne_zero]
      norm_num
    have hunits : (2 : ℚ) ^ (23 + e) = 2 ^ 23 * 2 ^ e := by
      rw [zpow_add₀ two_ne_zero]
      rfl
    have hmax : e ≤ 104 := hwhole.le_max
    subst hpower
    have hquarter := power_sub_rounded_lt (j := j) (by omega) (by omega) htop hq hunder hi.le
      (by linarith) (by linarith)
    linarith
  · have hwhole : Format.single.gapBelow n e = 2 ^ e := if_neg hhalf
    linarith

/-- The rounded decimal has `HasDigits` for seven digits, also if it is a power of ten. -/
theorem hasDigits_rounded (htop : Magnitude 10 x top) (hq : Rounded 10 x (top - 6) q) :
    HasDigits 7 (q * 10 ^ (top - 6)) := by
  rcases Nat.lt_or_eq_of_le (rounded_bounds htop hq).2 with hless | rfl
  · refine ⟨q, top - 6, ?_, by rw [Int.cast_natCast]⟩
    rw [Nat.abs_cast]
    exact_mod_cast hless
  · -- Ten million steps are a single digit.
    refine ⟨1, top + 1, by decide, ?_⟩
    have hpower := leading_eq top
    rw [Nat.cast_ofNat] at hpower
    rw [zpow_add_one₀ (by norm_num), hpower]
    push_cast
    ring

/-- The rounded decimal `Identifies` the number exactly if any decimal of seven digits does. -/
theorem identifies_rounded_iff (hx : Format.single.Has x) (htop : Magnitude 10 x top)
    (hq : Rounded 10 x (top - 6) q) :
    Format.single.Identifies (q * 10 ^ (top - 6)) x ↔ InSevenDigits x := by
  refine ⟨fun h => ⟨_, hasDigits_rounded htop hq, ?_, h⟩, identifies_rounded hx htop hq⟩
  rw [abs_of_nonneg (mul_nonneg (Nat.cast_nonneg q) (zpow_pos (by norm_num) _).le)]
  exact (rounded_le hx htop hq).trans_lt (by norm_num)

end

/-! ### Seven significant digits -/

/-- The `Magnitude` of a number of single precision, in decimal form, is bounded on either side. -/
theorem top_bounds {x : ℚ} {top : ℤ} (hx : Format.single.Has x) (htop : Magnitude 10 x top) :
    -45 ≤ top ∧ top ≤ 38 := by
  obtain ⟨n, e, hwhole⟩ := hx.exists_whole Format.single_sound (htop.pos (by decide))
  have hten : (1 : ℚ) < (10 : ℕ) := by norm_num
  -- The least and the greatest numbers of the format lie within these powers of ten.
  constructor
  · have hleast : ((10 : ℕ) : ℚ) ^ (-45 : ℤ) ≤ x := by
      calc ((10 : ℕ) : ℚ) ^ (-45 : ℤ) ≤ 2 ^ (-149 : ℤ) := by norm_num
        _ ≤ 2 ^ e := zpow_le_zpow_right₀ one_le_two hwhole.min_le
        _ ≤ x := hwhole.unit_le
    have hlt := (zpow_lt_zpow_iff_right₀ hten).mp (hleast.trans_lt htop.lt)
    omega
  · have hgreatest : x < ((10 : ℕ) : ℚ) ^ (39 : ℤ) := by
      calc x < 2 ^ (128 : ℤ) := hwhole.lt_pow
        _ ≤ ((10 : ℕ) : ℚ) ^ (39 : ℤ) := by norm_num
    have hlt := (zpow_lt_zpow_iff_right₀ hten).mp (htop.le.trans_lt hgreatest)
    omega

/-- Rounded by `significant` to seven digits, a number of single precision is shown by the decimal
that it was rounded to. -/
theorem exists_denoted?_significant {m : Nat} {e : ℤ} (hm : m ≠ 0)
    (hx : Format.single.Has (m * 2 ^ e)) (negative : Bool) :
    ∃ (top : ℤ) (q : Nat), Magnitude 10 (m * 2 ^ e) top ∧ Rounded 10 (m * 2 ^ e) (top - 6) q ∧
      denoted? ((Floating.finite negative m e).significant 7).text =
        some (if negative then -((q : ℚ) * 10 ^ (top - 6)) else (q : ℚ) * 10 ^ (top - 6)) := by
  have htop := magnitude_floorLog10 (fraction_fst_ne_zero hm e) (fraction_snd_pos m e).ne'
  have hq := rounded_scaled (b := 10) (by decide) (fraction m e).1 (fraction_snd_pos m e)
    (floorLog10 (fraction m e).1 (fraction m e).2 - 6)
  rw [fraction_div] at htop hq
  -- Showing seven digits is scaling by six places less than the first digit.
  have hsignificant : (Floating.finite negative m e).significant 7 =
      Format.double.ofDecimal negative
        (roundQuotient
          (scaled 10 (fraction m e).1 (fraction m e).2
            (floorLog10 (fraction m e).1 (fraction m e).2 - 6)).1
          (scaled 10 (fraction m e).1 (fraction m e).2
            (floorLog10 (fraction m e).1 (fraction m e).2 - 6)).2)
        (floorLog10 (fraction m e).1 (fraction m e).2 - 6) := by
    have hplace : floorLog10 (fraction m e).1 (fraction m e).2 - (7 : ℕ) + 1 =
        floorLog10 (fraction m e).1 (fraction m e).2 - 6 := by omega
    rw [← hplace, significant, if_neg hm]
    rfl
  rw [hsignificant]
  generalize floorLog10 (fraction m e).1 (fraction m e).2 = top at htop hq
  generalize roundQuotient _ _ = q at hq
  refine ⟨top, q, htop, hq, ?_⟩
  -- The exponents are moderate, so the double that is shown is found from its digits.
  obtain ⟨hlow, hhigh⟩ := top_bounds hx htop
  obtain ⟨hsix, hseven⟩ := rounded_bounds htop hq
  obtain ⟨hleading, hnext⟩ := hq.mem_Icc (b := 10) (by decide) htop (by omega)
  have hten : (1 : ℚ) ≤ (10 : ℕ) := by norm_num
  have hsize : Moderate (q * 10 ^ (top - 6)) :=
    ⟨(zpow_le_zpow_right₀ hten (by omega)).trans hleading,
      hnext.trans (zpow_le_zpow_right₀ hten (by omega))⟩
  have hpos : q ≠ 0 := by omega
  obtain ⟨m', e', hnear, hread⟩ := exists_ofDecimal_eq hpos (by omega) (by omega) hsize
  have hodd := hnear.odd
  have hshown := hnear.shortest_value hpos hseven (by omega) (by omega) (hread false)
  have hvalue : (0 : ℚ) < q * 10 ^ (top - 6) :=
    mul_pos (Nat.cast_pos.mpr (Nat.pos_of_ne_zero hpos)) (zpow_pos (by norm_num) _)
  rw [hread]
  exact denoted?_text (by omega) hshown hvalue.ne' negative

/-! ### Either sign -/

/-- What a text says about a number of single precision: it is `denoted?` as a decimal, which
identifies the number if any decimal of seven digits does, and then it is rounded back to it. -/
def Shows (shown : Text) (x : ℚ) : Prop :=
  ∃ d, denoted? shown = some d ∧ (Format.single.Identifies d x ↔ InSevenDigits x) ∧
    (Format.single.Identifies d x → (Format.single.nearest d).value = x)

/-- If one text `Shows` two numbers that seven digits identify, they are the same number. -/
theorem Shows.unique {shown : Text} {x y : ℚ} (hx : Shows shown x) (hy : Shows shown y)
    (hx' : InSevenDigits x) (hy' : InSevenDigits y) : x = y := by
  obtain ⟨d, hd, hiff, hback⟩ := hx
  obtain ⟨d', hd', hiff', hback'⟩ := hy
  -- It denotes one decimal, which is rounded to one number.
  obtain rfl : d = d' := Option.some.inj (hd.symm.trans hd')
  exact (hback (hiff.mpr hx')).symm.trans (hback' (hiff'.mpr hy'))

section
variable {d x : ℚ}

/-- With the opposite sign a number `Identifies` the opposite one. -/
theorem Format.Identifies.neg {format : Format} (h : format.Identifies d x) :
    format.Identifies (-d) (-x) := by
  intro y hy hne
  have hfar := h (-y) hy.neg fun heq => hne (by rw [← heq, neg_neg])
  rwa [neg_sub_neg, abs_sub_comm, ← neg_add', abs_neg, ← sub_neg_eq_add]

/-- The opposite of a number that is `InSevenDigits` is so, too: the sign takes no digit. -/
theorem InSevenDigits.neg (h : InSevenDigits x) : InSevenDigits (-x) := by
  obtain ⟨_, ⟨n, j, hn, rfl⟩, hrange, hd⟩ := h
  refine ⟨_, ⟨-n, j, by rwa [abs_neg], rfl⟩, ?_, ?_⟩
  · rwa [Int.cast_neg, neg_mul, abs_neg]
  · rw [Int.cast_neg, neg_mul]
    exact hd.neg

/-- A number `Identifies` itself, whatever the format. -/
theorem Format.identifies_self (format : Format) (x : ℚ) : format.Identifies x x := by
  intro y _ hne
  rw [sub_self, abs_zero]
  exact abs_pos.mpr (sub_ne_zero.mpr hne.symm)

end

/-- A finite number of single precision is shown by `significant` with seven digits as well as seven
digits can do. -/
theorem shows_significant (negative : Bool) (m : Nat) (e : ℤ)
    (hx : Format.single.Has (Floating.finite negative m e).value) :
    Shows ((Floating.finite negative m e).significant 7).text
      (Floating.finite negative m e).value := by
  -- Zero is shown exactly, and its own case since it has no first digit.
  by_cases hm : m = 0
  · subst hm
    have hvalue : (Floating.finite negative 0 e).value = 0 := by simp [value]
    have hsame : (Floating.finite negative 0 e).significant 7 = .finite negative 0 e := rfl
    rw [hvalue, hsame]
    have hself := Format.single.identifies_self 0
    refine ⟨0, denoted?_text_zero negative e, iff_of_true hself ?_, fun _ => ?_⟩
    · exact ⟨0, ⟨0, 0, by decide, by simp⟩, by norm_num, hself⟩
    · simp [Format.nearest, Format.round, zero, value]
  have hpositive : Format.single.Has ((m : ℚ) * 2 ^ e) := by
    cases negative with
    | false => simpa [value] using hx
    | true => simpa [value] using hx.neg
  obtain ⟨top, q, htop, hq, hshown⟩ := exists_denoted?_significant hm hpositive negative
  have hiff := identifies_rounded_iff hpositive htop hq
  have hnonneg : (0 : ℚ) ≤ q * 10 ^ (top - 6) :=
    mul_nonneg (Nat.cast_nonneg q) (zpow_pos (by norm_num) _).le
  have hbound : |(q : ℚ) * 10 ^ (top - 6)| < 2 ^ (128 : ℤ) - 2 ^ (104 : ℤ) / 2 := by
    rw [abs_of_nonneg hnonneg]
    exact (rounded_le hpositive htop hq).trans_lt (by norm_num)
  -- The bounds are about positive numbers. For a negative one both sides are turned around.
  cases negative with
  | false =>
    have hvalue : (Floating.finite false m e).value = m * 2 ^ e := one_mul _
    rw [hvalue]
    exact ⟨_, hshown, hiff, fun h => h.value_nearest Format.single_sound hpositive hbound⟩
  | true =>
    have hvalue : (Floating.finite true m e).value = -(m * 2 ^ e) := neg_one_mul _
    rw [hvalue]
    refine ⟨_, hshown, ?_, fun h => h.value_nearest Format.single_sound hpositive.neg ?_⟩
    · constructor
      · intro h
        have hflip := h.neg
        rw [if_pos rfl, neg_neg, neg_neg] at hflip
        exact (hiff.mp hflip).neg
      · intro h
        have hflip := h.neg
        rw [neg_neg] at hflip
        exact (hiff.mpr hflip).neg
    · rw [if_pos rfl, abs_neg]
      exact hbound

end TypedOps.Floating
