/-!
# `TypedOps.Number.Floating`: floating-point numbers as exact values

A floating-point number is kept as the real it stands for: a sign, a mantissa
and a power of two. The mantissa is odd, or zero with exponent zero, so equal
numbers are equal terms. A `Format` says which of these values a binary format
can hold; `Format.round` takes any fraction to the nearest of them, a half going
to the even neighbour, and all of it is arithmetic on natural numbers.
-/

set_option autoImplicit false

namespace TypedOps

/-- A floating-point number: `finite negative m e` stands for `m · 2 ^ e` with
the given sign. -/
inductive Floating where
  | nan
  | infinite (negative : Bool)
  | finite (negative : Bool) (mantissa : Nat) (exponent : Int)
deriving DecidableEq, Repr

/-- Natural division rounded to the nearest, a half going to the even
neighbour. -/
def roundQuotient (num den : Nat) : Nat :=
  let q := num / den
  let r := num % den
  if 2 * r < den || (2 * r == den && q % 2 == 0) then q else q + 1

namespace Floating

/-- Zero with a sign. Both zeros are kept apart. -/
def zero (negative : Bool) : Floating := .finite negative 0 0

/-- Move factors of two from the mantissa to the exponent, at most `fuel` of
them. -/
def stripTwos : (fuel : Nat) → Nat → Int → Nat × Int
  | 0, m, e => (m, e)
  | fuel + 1, m, e => if m % 2 = 0 then stripTwos fuel (m / 2) (e + 1) else (m, e)

/-- The number `m · 2 ^ e` in its one form. A mantissa has fewer factors of two
than bits. -/
def ofDyadic (negative : Bool) (m : Nat) (e : Int) : Floating :=
  if m = 0 then zero negative
  else
    let (m', e') := stripTwos (m.log2 + 1) m e
    .finite negative m' e'

/-- The absolute value of `m · 2 ^ e` as a fraction. -/
def fraction (m : Nat) (e : Int) : Nat × Nat :=
  if 0 ≤ e then (m * Nat.pow 2 e.toNat, 1) else (m, Nat.pow 2 (-e).toNat)

/-- The exponent of the largest power of two that is at most `num / den`. -/
def floorLog2 (num den : Nat) : Int :=
  let k : Int := (num.log2 : Int) - (den.log2 : Int)
  let reached :=
    if 0 ≤ k then den * Nat.pow 2 k.toNat ≤ num else den ≤ num * Nat.pow 2 (-k).toNat
  if reached then k else k - 1

/-- A binary format: the bits of its mantissa and the least and greatest exponent of a whole
mantissa. -/
structure Format where
  precision : Nat
  minExponent : Int
  maxExponent : Int
deriving DecidableEq, Repr

/-- The 32-bit interchange format, in which a catalog stores floats. -/
def Format.single : Format := ⟨24, -149, 104⟩

/-- The 64-bit interchange format, in which floats are computed and shown. -/
def Format.double : Format := ⟨53, -1074, 971⟩

/-- The value of the format nearest to `num / den`, the one with the even
mantissa of two equally near. Past the greatest value it is infinite. -/
def Format.round (format : Format) (negative : Bool) (num den : Nat) : Floating :=
  if num = 0 then zero negative
  else
    let e := max format.minExponent (floorLog2 num den + 1 - format.precision)
    let q :=
      if 0 ≤ e then roundQuotient num (den * Nat.pow 2 e.toNat)
      else roundQuotient (num * Nat.pow 2 (-e).toNat) den
    if format.maxExponent < e ||
        (format.maxExponent == e && Nat.pow 2 format.precision ≤ q) then
      .infinite negative
    else ofDyadic negative q e

/-- The nearest value of a format, by `Format.round`. Infinities and what is no number stay. -/
def Format.convert (format : Format) : Floating → Floating
  | .finite negative m e => format.round negative (fraction m e).1 (fraction m e).2
  | other => other

/-- The value of a format nearest to an integer, by `Format.round`. -/
def Format.ofInt (format : Format) (i : Int) : Floating :=
  format.round (decide (i < 0)) i.natAbs 1

/-- The value nearest to `digits · 10 ^ exponent`. The exponent is compared with
the number of digits first, so that a huge one costs nothing: past four hundred
places every format in use is at infinity or at zero. -/
def Format.ofDecimal (format : Format) (negative : Bool) (digits : Nat) (exponent : Int) :
    Floating :=
  if digits = 0 || exponent + ((digits.log2 : Int) + 4) / 3 < -400 then zero negative
  else if 400 < exponent then .infinite negative
  else if 0 ≤ exponent then format.round negative (digits * Nat.pow 10 exponent.toNat) 1
  else format.round negative digits (Nat.pow 10 (-exponent).toNat)

/-- The 32 bits of the single-precision interchange form, sign first. -/
def toSingleBits : Floating → Nat
  | .nan => 0x7FC00000
  | .infinite negative => (if negative then 0x80000000 else 0) + 0x7F800000
  | .finite negative m e =>
    let sign := if negative then 0x80000000 else 0
    if m = 0 then sign
    else
      let top := (m.log2 : Int) + e
      if top < -126 then sign + m * Nat.pow 2 (e + 149).toNat
      else sign + (top + 127).toNat * 0x800000 +
        (m * Nat.pow 2 (e - (top - 23)).toNat - 0x800000)

/-- The number with the given 32 bits, which undoes `toSingleBits`. Every pattern that is not a
number is the same one here. -/
def ofSingleBits (bits : Nat) : Floating :=
  let negative := bits / 0x80000000 % 2 == 1
  let exponent : Nat := bits / 0x800000 % 256
  let part : Nat := bits % 0x800000
  if exponent = 255 then (if part = 0 then .infinite negative else .nan)
  else if exponent = 0 then ofDyadic negative part (-149)
  else ofDyadic negative (part + 0x800000) ((exponent : Int) - 150)

end Floating

end TypedOps
