import TypedOps.Number.Floating
import TypedOps.Text.Basic

/-!
# `TypedOps.Number.Decimal`: decimal text of floating-point numbers

`Floating.text` writes the fewest digits that read back as the same double, and
of several such decimals the nearest, a tie going to the even digit. Numbers
from 1e-4 up to but not including 1e16 are written positionally, with `.0`
behind a whole number; all others with an exponent of at least two digits.

`Floating.significant` rounds the exact value to a number of significant digits
and takes the result back to a double.
-/

set_option autoImplicit false

namespace TypedOps

namespace Floating

/-- The number of decimal digits; zero has one. -/
def digitCount (n : Nat) : Nat := (Nat.toDigits 10 n).length

/-- The fraction `num / den` divided by `10 ^ k`. -/
def scaleDown (num den : Nat) (k : Int) : Nat × Nat :=
  if 0 ≤ k then (num, den * Nat.pow 10 k.toNat) else (num * Nat.pow 10 (-k).toNat, den)

/-- The exponent of the largest power of ten that is at most `num / den`. -/
def floorLog10 (num den : Nat) : Int :=
  let k : Int := (digitCount num : Int) - (digitCount den : Int)
  let (a, b) := scaleDown num den k
  if b ≤ a then k else k - 1

/-- A positive decimal `digits · 10 ^ exponent`, which may have zeros at its end. -/
structure Decimal where
  digits : Nat
  exponent : Int
deriving DecidableEq, Repr

/-- Of the two neighbours of `num / den` on the grid of step `10 ^ k`, the nearest
one that `reads` accepts; the even one if both are equally near. -/
def nearestOnGrid? (reads : Decimal → Bool) (num den : Nat) (k : Int) : Option Decimal :=
  let (a, b) := scaleDown num den k
  let below : Decimal := ⟨a / b, k⟩
  let above : Decimal := ⟨a / b + 1, k⟩
  let rest := a % b
  let (first, second) :=
    if 2 * rest < b || (2 * rest == b && a / b % 2 == 0) then (below, above) else (above, below)
  if reads first then some first else if reads second then some second else none

/-- The first hit on the grids of `count`, `count + 1`, … digits, of which there
are `fuel`; `top` is the exponent of the leading digit. -/
def shortestFrom (reads : Decimal → Bool) (num den : Nat) (top : Int) :
    (fuel count : Nat) → Decimal
  | 0, count =>
    let (a, b) := scaleDown num den (top - count + 1)
    ⟨roundQuotient a b, top - count + 1⟩
  | fuel + 1, count =>
    match nearestOnGrid? reads num den (top - count + 1) with
    | some d => d
    | none => shortestFrom reads num den top fuel (count + 1)

/-- The shortest decimal that reads back as the double `num / den`. Seventeen
digits always do. -/
def shortest (num den : Nat) : Decimal :=
  let value := Format.double.round false num den
  let reads (d : Decimal) := Format.double.ofDecimal false d.digits d.exponent == value
  shortestFrom reads num den (floorLog10 num den) 16 1

/-- A positive decimal with an exponent of ten behind it, as large and small ones are shown. -/
def scientific (digits : Text) (top : Int) : Text :=
  let mantissa : Text :=
    match digits with
    | [] => []
    | [d] => [d]
    | d :: rest => d :: '.' :: rest
  mantissa ++ ['e', if top < 0 then '-' else '+'] ++ Text.padded 10 2 top.natAbs

/-- A positive decimal with a point; `top` is the exponent of its first digit. -/
def positional (digits : Text) (top : Int) : Text :=
  if top < 0 then "0." ++ Text.fill (-top - 1).toNat '0' ++ digits
  else
    let whole := top.toNat + 1
    if digits.length ≤ whole then digits ++ Text.fill (whole - digits.length) '0' ++ ".0"
    else digits.take whole ++ ['.'] ++ digits.drop whole

/-- The digits of a `Decimal` without zeros at the end. -/
def Decimal.significantDigits (d : Decimal) : Text :=
  Text.trimEnd (· == '0') (Text.ofNat d.digits)

/-- The exponent of the first digit of a `Decimal`. -/
def Decimal.top (d : Decimal) : Int := d.exponent + (digitCount d.digits : Int) - 1

/-- The text of a positive decimal: `positional` in the middle, and `scientific` far out on either
side. -/
def Decimal.text (d : Decimal) : Text :=
  if d.top < -4 || 16 ≤ d.top then scientific d.significantDigits d.top
  else positional d.significantDigits d.top

/-- The text of a double: of a finite one, the `shortest` that reads back as the number. -/
def text : Floating → Text
  | .nan => "nan"
  | .infinite negative => if negative then "-inf" else "inf"
  | .finite negative m e =>
    let magnitude : Text :=
      if m = 0 then "0.0" else (shortest (fraction m e).1 (fraction m e).2).text
    if negative then '-' :: magnitude else magnitude

/-- The double nearest to the value rounded to `count` significant decimal
digits. -/
def significant (count : Nat) : Floating → Floating
  | .finite negative m e =>
    if m = 0 then .finite negative m e
    else
      let (num, den) := fraction m e
      let k := floorLog10 num den - count + 1
      let (a, b) := scaleDown num den k
      Format.double.ofDecimal negative (roundQuotient a b) k
  | other => other

end Floating

end TypedOps
