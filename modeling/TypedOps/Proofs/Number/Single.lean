import Mathlib.Data.Nat.Factorization.Basic
import TypedOps.Number.Floating
import TypedOps.Number.MachineInt

/-!
# `TypedOps.Proofs.Number.Single`: rounding stays within a format

`Format.Holds` says which numbers a format has, and rounding ends at one of these whatever it starts
from (`Format.round_holds`): at most `2 ^ precision` units of the last place are left, because the
exponent is chosen by the largest power of two below the number.

The numbers of single precision come back from their 32 bits (`ofSingleBits_toSingleBits`). The two
ranges of exponents, of whole mantissas and of shortened ones, are written in one way, as a sign, an
exponent and a part (`joined`).
-/

set_option autoImplicit false

namespace TypedOps

/-! ### Powers of two -/

namespace Floating

/-- Factors of two are moved by `stripTwos` from an odd mantissa's multiple to its exponent. -/
theorem stripTwos_mul_pow {m : Nat} (hm : m % 2 = 1) {k fuel : Nat} (hfuel : k ≤ fuel) (e : Int) :
    stripTwos fuel (m * 2 ^ k) e = (m, e + k) := by
  induction fuel generalizing k e with
  | zero =>
    obtain rfl : k = 0 := Nat.le_zero.mp hfuel
    simp [stripTwos]
  | succ fuel ih =>
    -- The factor is taken off one by one, and the odd mantissa ends the search.
    cases k with
    | zero => simp [stripTwos, hm]
    | succ k =>
      have heven : m * 2 ^ (k + 1) % 2 = 0 := by rw [Nat.pow_succ, ← Nat.mul_assoc]; omega
      have hhalf : m * 2 ^ (k + 1) / 2 = m * 2 ^ k := by rw [Nat.pow_succ, ← Nat.mul_assoc]; omega
      rw [stripTwos, if_pos heven, hhalf, ih (Nat.le_of_succ_le_succ hfuel)]
      congr 1
      omega

/-- The form that `ofDyadic` gives for a multiple of an odd mantissa by a power of two. -/
theorem ofDyadic_mul_pow {m : Nat} (hm : m % 2 = 1) (negative : Bool) (k : Nat) (e : Int) :
    ofDyadic negative (m * 2 ^ k) e = .finite negative m (e + k) := by
  have hpos : 0 < m := by omega
  have hne : m * 2 ^ k ≠ 0 := Nat.mul_ne_zero (by omega) (Nat.pow_pos (by decide)).ne'
  have hk : k ≤ (m * 2 ^ k).log2 := (Nat.le_log2 hne).mpr (Nat.le_mul_of_pos_left _ hpos)
  rw [ofDyadic, if_neg hne, stripTwos_mul_pow hm (by omega)]

/-- A comparison of scaled numbers depends on the difference of the scales only. -/
theorem scaled_lt {num den a b a' b' : Nat} (h : num * 2 ^ b < den * 2 ^ a)
    (hscale : a + b' ≤ a' + b) : num * 2 ^ b' < den * 2 ^ a' := by
  refine Nat.lt_of_mul_lt_mul_right (a := 2 ^ b) ?_
  calc num * 2 ^ b' * 2 ^ b = num * 2 ^ b * 2 ^ b' := Nat.mul_right_comm ..
    _ < den * 2 ^ a * 2 ^ b' := Nat.mul_lt_mul_of_pos_right h (Nat.pow_pos (by decide))
    _ = den * 2 ^ (a + b') := by rw [Nat.mul_assoc, ← Nat.pow_add]
    _ ≤ den * 2 ^ (a' + b) := Nat.mul_le_mul_left _ (Nat.pow_le_pow_right (by decide) hscale)
    _ = den * 2 ^ a' * 2 ^ b := by rw [Nat.pow_add, Nat.mul_assoc]

/-- A fraction is less than the power of two behind the one that `floorLog2` finds. -/
theorem lt_of_floorLog2 {num den a b : Nat} (hden : 0 < den)
    (hscale : floorLog2 num den + 1 + b ≤ a) : num * 2 ^ b < den * 2 ^ a := by
  -- The estimate of the exponent, compared with the powers of two around the numbers.
  have hestimate : num * 2 ^ den.log2 < den * 2 ^ (num.log2 + 1) := by
    calc num * 2 ^ den.log2 ≤ num * den := Nat.mul_le_mul_left _ (Nat.log2_self_le hden.ne')
      _ < 2 ^ (num.log2 + 1) * den := Nat.mul_lt_mul_of_pos_right Nat.lt_log2_self hden
      _ = den * 2 ^ (num.log2 + 1) := Nat.mul_comm _ _
  unfold floorLog2 at hscale
  by_cases hk : 0 ≤ (num.log2 : Int) - den.log2
  · simp only [if_pos hk] at hscale
    split at hscale
    · exact scaled_lt hestimate (by omega)
    · next hover =>
      have hlt : num * 2 ^ 0 < den * 2 ^ ((num.log2 : Int) - den.log2).toNat := by
        rw [Nat.pow_zero, Nat.mul_one]
        exact Nat.lt_of_not_le hover
      exact scaled_lt hlt (by omega)
  · simp only [if_neg hk] at hscale
    split at hscale
    · exact scaled_lt hestimate (by omega)
    · next hover =>
      have hlt : num * 2 ^ (-((num.log2 : Int) - den.log2)).toNat < den * 2 ^ 0 := by
        rw [Nat.pow_zero, Nat.mul_one]
        exact Nat.lt_of_not_le hover
      exact scaled_lt hlt (by omega)

end Floating

/-- A `roundQuotient` does not pass a whole number that the quotient does not pass. -/
theorem roundQuotient_le {num den bound : Nat} (hden : 0 < den) (h : num ≤ bound * den) :
    roundQuotient num den ≤ bound := by
  have hquotient : num / den ≤ bound := Nat.div_le_of_le_mul (by rwa [Nat.mul_comm])
  simp only [roundQuotient]
  split
  · exact hquotient
  · next hup =>
    -- Rounded up, so something was left over, and the quotient was below the bound.
    refine Nat.lt_of_le_of_ne hquotient fun heq => hup ?_
    have hrest := Nat.div_add_mod num den
    rw [heq, Nat.mul_comm den bound] at hrest
    have hnone : num % den = 0 := by omega
    simp [hnone, hden]

namespace Floating

/-! ### The numbers of a format -/

/-- The numbers that a `Format` has. The mantissa being odd, its bits are those that count. -/
def Format.Holds (format : Format) : Floating → Prop
  | .nan | .infinite _ => True
  | .finite _ m e =>
    (m = 0 ∧ e = 0) ∨
      (m % 2 = 1 ∧ m < 2 ^ format.precision ∧ format.minExponent ≤ e ∧
        (m.log2 : Int) + e < format.precision + format.maxExponent)

/-- No more units of an allowed place than the mantissa has room for are turned by `ofDyadic` into a
number of the format, unless they carry beyond the greatest place. -/
theorem Format.ofDyadic_holds {format : Format} (hprecision : 0 < format.precision) {q : Nat}
    {e : Int} (negative : Bool) (hq : q ≤ 2 ^ format.precision) (hmin : format.minExponent ≤ e)
    (hmax : e ≤ format.maxExponent) (hcarry : e = format.maxExponent → q < 2 ^ format.precision) :
    format.Holds (ofDyadic negative q e) := by
  by_cases hzero : q = 0
  · rw [ofDyadic, if_pos hzero]
    exact .inl ⟨rfl, rfl⟩
  · obtain ⟨k, m, hodd, rfl⟩ := Nat.exists_eq_two_pow_mul_odd hzero
    rw [Nat.mul_comm] at hq hcarry ⊢
    have hm : m % 2 = 1 := Nat.odd_iff.mp hodd
    have hle : m ≤ m * 2 ^ k := Nat.le_mul_of_pos_right _ (Nat.pow_pos (by decide))
    -- The leading bit is where the mantissa and its factor of two put it, which bounds the place.
    have hbits : 2 ^ (m.log2 + k) ≤ m * 2 ^ k := by
      rw [Nat.pow_add]
      exact Nat.mul_le_mul_right _ (Nat.log2_self_le (by omega))
    have hplace : m.log2 + k ≤ format.precision :=
      (Nat.pow_le_pow_iff_right (by decide)).mp (hbits.trans hq)
    have hcarried : e = format.maxExponent → m.log2 + k < format.precision := fun he =>
      (Nat.pow_lt_pow_iff_right (by decide)).mp (hbits.trans_lt (hcarry he))
    -- A carry gives a power of two, which is even, so its mantissa is a single bit.
    have heven : 2 ^ format.precision % 2 = 0 := by
      obtain ⟨p, hp⟩ : ∃ p, format.precision = p + 1 := ⟨format.precision - 1, by omega⟩
      rw [hp, Nat.pow_succ, Nat.mul_mod_left]
    rw [ofDyadic_mul_pow hm]
    exact .inr ⟨hm, by omega, by omega, by omega⟩

/-- Every fraction is rounded by `round` to a number of the format, or to infinity. -/
theorem Format.round_holds {format : Format} (hprecision : 0 < format.precision) (negative : Bool)
    (num : Nat) {den : Nat} (hden : 0 < den) : format.Holds (format.round negative num den) := by
  unfold Format.round
  split
  · exact .inl ⟨rfl, rfl⟩
  · simp only
    -- The place and the rounded quotient are named, to bound the quotient once for both ways of
    -- scaling.
    generalize he : max format.minExponent (floorLog2 num den + 1 - format.precision) = e
    have hplace : floorLog2 num den + 1 ≤ e + format.precision := by omega
    generalize hq : (if 0 ≤ e then roundQuotient num (den * Nat.pow 2 e.toNat)
      else roundQuotient (num * Nat.pow 2 (-e).toNat) den) = q
    have hbound : q ≤ 2 ^ format.precision := by
      rw [← hq]
      split
      · have hlt : num * 2 ^ 0 < den * 2 ^ (format.precision + e.toNat) :=
          lt_of_floorLog2 hden (by omega)
        refine roundQuotient_le (Nat.mul_pos hden (Nat.pow_pos (by decide))) ?_
        calc num = num * 2 ^ 0 := (Nat.mul_one num).symm
          _ ≤ den * 2 ^ (format.precision + e.toNat) := hlt.le
          _ = 2 ^ format.precision * (den * 2 ^ e.toNat) := by
            rw [Nat.pow_add, Nat.mul_left_comm]
      · have hlt : num * 2 ^ (-e).toNat < den * 2 ^ format.precision :=
          lt_of_floorLog2 hden (by omega)
        refine roundQuotient_le hden ?_
        rw [Nat.mul_comm (2 ^ format.precision)]
        exact hlt.le
    split
    · trivial
    -- What does not overflow has room in the bits, or carries at a place that is not the last.
    · next hrange =>
      rw [Bool.or_eq_true, decide_eq_true_eq, Bool.and_eq_true, beq_iff_eq, decide_eq_true_eq,
        not_or, not_and, Nat.not_le] at hrange
      exact ofDyadic_holds hprecision negative hbound (by omega) (by omega)
        fun hlast => hrange.2 hlast.symm

/-- A number brought into a format by `convert` is one of the format's. -/
theorem Format.convert_holds {format : Format} (hprecision : 0 < format.precision) (x : Floating) :
    format.Holds (format.convert x) := by
  cases x with
  | nan => trivial
  | infinite negative => trivial
  | finite negative m e =>
    refine round_holds hprecision negative _ ?_
    unfold fraction
    split
    · exact Nat.one_pos
    · exact Nat.pow_pos (by decide)

/-- An integer brought into a format by `ofInt` is one of the format's. -/
theorem Format.ofInt_holds {format : Format} (hprecision : 0 < format.precision) (i : Int) :
    format.Holds (format.ofInt i) :=
  round_holds hprecision _ _ Nat.one_pos

/-! ### The 32 bits of single precision -/

/-- A sign, an exponent of eight bits and a part of twenty-three, put together as one number, as
`toSingleBits` does it. -/
def joined (negative : Bool) (exponent part : Nat) : Nat :=
  (if negative then 0x80000000 else 0) + exponent * 0x800000 + part

/-- The number that is `joined` has thirty-two bits in all. -/
theorem joined_lt (negative : Bool) {exponent part : Nat} (hexponent : exponent < 256)
    (hpart : part < 0x800000) : joined negative exponent part < MachineInt.patterns 32 := by
  have hpatterns : MachineInt.patterns 32 = 4294967296 := by decide
  rw [joined]
  split <;> omega

/-- Sign, exponent and part are told apart again in the number that is `joined` from them. -/
theorem ofSingleBits_joined (negative : Bool) {exponent part : Nat} (hexponent : exponent < 256)
    (hpart : part < 0x800000) :
    ofSingleBits (joined negative exponent part) =
      if exponent = 255 then (if part = 0 then .infinite negative else .nan)
      else if exponent = 0 then ofDyadic negative part (-149)
      else ofDyadic negative (part + 0x800000) ((exponent : Int) - 150) := by
  have hsign : (joined negative exponent part / 0x80000000 % 2 == 1) = negative := by
    cases negative <;> simp [joined] <;> omega
  have hexponent' : joined negative exponent part / 0x800000 % 256 = exponent := by
    rw [joined]
    split <;> omega
  have hpart' : joined negative exponent part % 0x800000 = part := by
    rw [joined]
    split <;> omega
  simp only [ofSingleBits, hsign, hexponent', hpart']

/-- The sign, exponent and part that make up a number's bits when they are `joined`, and stand for
the number. -/
structure JoinedBy (x : Floating) (negative : Bool) (exponent part : Nat) : Prop where
  exponent_lt : exponent < 256
  part_lt : part < 0x800000
  bits : x.toSingleBits = joined negative exponent part
  back : ofSingleBits (joined negative exponent part) = x

/-- Below the least whole mantissa, a number is `JoinedBy` bits that are all units of the last
place. -/
theorem joinedBy_short {m : Nat} {e : Int} (hodd : m % 2 = 1) (hmin : -149 ≤ e)
    (htop : (m.log2 : Int) + e < -126) (negative : Bool) :
    JoinedBy (.finite negative m e) negative 0 (m * 2 ^ (e + 149).toNat) := by
  have hne : m ≠ 0 := by omega
  have hpart : m * 2 ^ (e + 149).toNat < 0x800000 := by
    calc m * 2 ^ (e + 149).toNat < 2 ^ (m.log2 + 1) * 2 ^ (e + 149).toNat :=
          Nat.mul_lt_mul_of_pos_right Nat.lt_log2_self (Nat.pow_pos (by decide))
      _ = 2 ^ (m.log2 + 1 + (e + 149).toNat) := (Nat.pow_add ..).symm
      _ ≤ 2 ^ 23 := Nat.pow_le_pow_right (by decide) (by omega)
  refine ⟨by decide, hpart, ?_, ?_⟩
  · simp [toSingleBits, if_neg hne, if_pos htop, joined]
  · rw [ofSingleBits_joined negative (by decide) hpart, if_neg (by decide), if_pos rfl,
      ofDyadic_mul_pow hodd]
    congr 1
    omega

/-- From the least whole mantissa on, a number is `JoinedBy` the bits of its mantissa made whole,
whose top bit is understood. -/
theorem joinedBy_whole {m : Nat} {e : Int} (hodd : m % 2 = 1) (hm : m < 2 ^ 24)
    (htop : -126 ≤ (m.log2 : Int) + e) (hmax : (m.log2 : Int) + e < 128) (negative : Bool) :
    JoinedBy (.finite negative m e) negative ((m.log2 : Int) + e + 127).toNat
      (m * 2 ^ (23 - m.log2) - 0x800000) := by
  have hne : m ≠ 0 := by omega
  have hbits : m.log2 < 24 := (Nat.log2_lt hne).mpr hm
  -- The mantissa is moved up until its leading bit is the twenty-fourth, which is the one that is
  -- understood.
  have hlow : 0x800000 ≤ m * 2 ^ (23 - m.log2) := by
    calc 0x800000 = 2 ^ (m.log2 + (23 - m.log2)) := by rw [Nat.add_sub_cancel' (by omega)]
      _ = 2 ^ m.log2 * 2 ^ (23 - m.log2) := Nat.pow_add ..
      _ ≤ m * 2 ^ (23 - m.log2) := Nat.mul_le_mul_right _ (Nat.log2_self_le hne)
  have hhigh : m * 2 ^ (23 - m.log2) < 0x1000000 := by
    calc m * 2 ^ (23 - m.log2) < 2 ^ (m.log2 + 1) * 2 ^ (23 - m.log2) :=
          Nat.mul_lt_mul_of_pos_right Nat.lt_log2_self (Nat.pow_pos (by decide))
      _ = 2 ^ (m.log2 + 1 + (23 - m.log2)) := (Nat.pow_add ..).symm
      _ = 2 ^ 24 := congrArg _ (by omega)
  have hplace : (e - ((m.log2 : Int) + e - 23)).toNat = 23 - m.log2 := by omega
  refine ⟨by omega, by omega, ?_, ?_⟩
  -- Writing takes the leading bit away, and reading puts it back.
  · simp only [toSingleBits, if_neg hne, if_neg (Int.not_lt.mpr htop), hplace]
    rfl
  · rw [ofSingleBits_joined negative (by omega) (by omega), if_neg (by omega),
      if_neg (by omega), Nat.sub_add_cancel hlow, ofDyadic_mul_pow hodd]
    congr 1
    omega

/-- Every number of single precision has a sign, an exponent and a part that it is `JoinedBy`. -/
theorem exists_joinedBy {x : Floating} (hx : Format.single.Holds x) :
    ∃ negative exponent part, JoinedBy x negative exponent part := by
  -- The special values have exponents of their own. A finite number is short or whole by its
  -- leading bit.
  cases x with
  | nan => exact ⟨false, 255, 0x400000, by decide, by decide, rfl, rfl⟩
  | infinite negative =>
    refine ⟨negative, 255, 0, by decide, by decide, rfl, ?_⟩
    rw [ofSingleBits_joined negative (by decide) (by decide), if_pos rfl, if_pos rfl]
  | finite negative m e =>
    rcases hx with ⟨rfl, rfl⟩ | ⟨hodd, hm, hmin, hmax⟩
    · refine ⟨negative, 0, 0, by decide, by decide, rfl, ?_⟩
      rw [ofSingleBits_joined negative (by decide) (by decide)]
      rfl
    · by_cases htop : (m.log2 : Int) + e < -126
      · exact ⟨_, _, _, joinedBy_short hodd hmin htop negative⟩
      · exact ⟨_, _, _, joinedBy_whole hodd hm (Int.not_lt.mp htop) hmax negative⟩

/-- A number of single precision is read by `ofSingleBits` back from its bits. -/
theorem ofSingleBits_toSingleBits {x : Floating} (hx : Format.single.Holds x) :
    ofSingleBits x.toSingleBits = x := by
  obtain ⟨negative, exponent, part, hjoined⟩ := exists_joinedBy hx
  rw [hjoined.bits, hjoined.back]

/-- The `toSingleBits` of a number of single precision are thirty-two. -/
theorem toSingleBits_lt {x : Floating} (hx : Format.single.Holds x) :
    x.toSingleBits < MachineInt.patterns 32 := by
  obtain ⟨negative, exponent, part, hjoined⟩ := exists_joinedBy hx
  rw [hjoined.bits]
  exact joined_lt negative hjoined.exponent_lt hjoined.part_lt

end Floating

end TypedOps
