import TypedOps.Number.Floating
import TypedOps.Text.Alphanumeric
import TypedOps.Text.LetterCase

/-!
# `TypedOps.Number.Literal`: reading numbers

`Integer.read?` takes an optional sign and decimal digits without a leading
zero, or a base marker (`0x`, `0o`, `0b`) and digits of that base. Decimals are
read up to a number of digits, the other bases without limit. `Floating.read?`
takes an optional sign and a decimal with an optional exponent, or a word for
infinity or for no number. In both, a single low line may stand between two
digits, and a decimal digit of any script counts as the digit it stands for.
-/

set_option autoImplicit false

namespace TypedOps

namespace Text

/-- The text with every decimal digit replaced by the ASCII digit of its value. -/
def withAsciiDigits (t : Text) : Text :=
  t.map fun c =>
    match decimalValue? c with
    | some d => Char.ofNat (48 + d)
    | none => c

/-- Digits of a base with single low lines between them, read from the front:
the digits and the rest. Nothing is read if no digit comes first or a low line
has no digit behind it. -/
def readDigits? (base : Nat) : Text → Option (Text × Text)
  | [] => none
  | d :: rest =>
    if !isDigitOf base d then none
    else
      match rest with
      | '_' :: more => (readDigits? base more).map fun (ds, tail) => (d :: ds, tail)
      | next :: more =>
        if isDigitOf base next then
          (readDigits? base (next :: more)).map fun (ds, tail) => (d :: ds, tail)
        else some ([d], next :: more)
      | [] => some ([d], [])

/-- The number written by digits of a base that take the whole text, as `readDigits?` goes through
it. -/
def wholeDigits? (base : Nat) (t : Text) : Option Nat :=
  match readDigits? base t with
  | some (digits, []) => some (digitsValue base digits)
  | _ => none

/-- Whether a sign comes first, which one, and the rest. -/
def readSign : Text → Bool × Text
  | '-' :: rest => (true, rest)
  | '+' :: rest => (false, rest)
  | t => (false, t)

end Text

namespace Integer

open Text

/-- Digits behind a base marker, which are `wholeDigits?`; one low line may come first. -/
def markedDigits? (base : Nat) : Text → Option Nat
  | '_' :: rest => wholeDigits? base rest
  | t => wholeDigits? base t

/-- How many digits a decimal may have, where it is read and where it is written. -/
def digitLimit : Nat := 4300

/-- A decimal within the `digitLimit`. Zeros at its front count as digits. -/
def decimal? (t : Text) : Option Nat :=
  match readDigits? 10 t with
  | some (digits, []) =>
    if digits.length ≤ digitLimit then some (digitsValue 10 digits) else none
  | _ => none

/-- A number without its sign: `markedDigits?`, or a `decimal?`, which may begin with a zero only if
it holds nothing else. -/
def magnitude? : Text → Option Nat
  | '0' :: marker :: rest =>
    if marker = 'x' || marker = 'X' then markedDigits? 16 rest
    else if marker = 'o' || marker = 'O' then markedDigits? 8 rest
    else if marker = 'b' || marker = 'B' then markedDigits? 2 rest
    else
      match decimal? ('0' :: marker :: rest) with
      | some 0 => some 0
      | _ => none
  | t => decimal? t

/-- The integer a text stands for, if it is written as one: a sign and a `magnitude?`. -/
def read? (t : Text) : Option Int :=
  let (negative, rest) := readSign (withAsciiDigits t)
  (magnitude? rest).map fun n => if negative then -(n : Int) else n

end Integer

namespace Floating

open Text

/-- The words for infinity and for no number, in any letter case. -/
def word? (negative : Bool) (t : Text) : Option Floating :=
  let w := t.flatMap lowered
  if w = "inf" || w = "infinity" then some (.infinite negative)
  else if w = "nan" then some .nan
  else none

/-- The exponent behind a mantissa, zero if there is none. -/
def exponent? : Text → Option Int
  | [] => some 0
  | marker :: rest =>
    if marker = 'e' || marker = 'E' then
      let (negative, digits) := readSign rest
      (wholeDigits? 10 digits).map fun n => if negative then -(n : Int) else n
    else none

/-- The whole part and the part behind the point, either of which may be absent but not both, and
the rest. Both are read by `readDigits?`. -/
def mantissa? (t : Text) : Option (Text × Text × Text) :=
  match readDigits? 10 t with
  | some (whole, '.' :: rest) =>
    match rest with
    | [] => some (whole, [], [])
    | d :: _ =>
      if isDigitOf 10 d then
        (readDigits? 10 rest).map fun (part, tail) => (whole, part, tail)
      else some (whole, [], rest)
  | some (whole, rest) => some (whole, [], rest)
  | none =>
    match t with
    | '.' :: rest => (readDigits? 10 rest).map fun (part, tail) => ([], part, tail)
    | _ => none

/-- The double a text stands for, if it is written as one: a `word?`, or a `mantissa?` with an
`exponent?`. -/
def read? (t : Text) : Option Floating :=
  let (negative, rest) := readSign (withAsciiDigits t)
  match word? negative rest with
  | some x => some x
  | none => do
    let (whole, part, tail) ← mantissa? rest
    let e ← exponent? tail
    let digits := digitsValue 10 (whole ++ part)
    some (Format.double.ofDecimal negative digits (e - (part.length : Int)))

end Floating

end TypedOps
