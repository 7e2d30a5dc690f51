import TypedOps.Number.Decimal
import TypedOps.Number.Literal
import TypedOps.Text.Quoted

/-!
# `TypedOps.Value`: attribute values and their literals

A `Value` is the plain form of an attribute's default: what a catalog stores is
turned into one, and documentation shows it as a Python literal. `Value.spelled`
is the text, and two kinds of parts are in its way.

* A byte string has a spelling but no accepted literal. It is part of the type
  because a caller may hand one in.
* An integer of more than `Integer.digitLimit` digits is never written out: the
  interpreter refuses to convert it.

`Value.literal` goes through the parts in reading order and reports the first of
either kind that it meets. `Value.inline`, which puts a value into running
text, minds only the long integers.
-/

set_option autoImplicit false

namespace TypedOps

/-- A plain value, as a catalog's defaults are given to generated code. -/
inductive Value where
  | nothing
  | bool (b : Bool)
  | int (i : Int)
  | float (x : Floating)
  | text (t : Text)
  | list (items : List Value)
  | tuple (items : List Value)
  | bytes (content : Bytes)

/-- Whether an integer has more digits than `Integer.digitLimit`. -/
def Integer.isLong (i : Int) : Bool := decide (digitLimit < (Text.ofNat i.natAbs).length)

namespace Value

mutual

/-- The spelling of a value. A tuple of one item keeps a comma behind it. -/
def spelled : Value → Text
  | .nothing => "None"
  | .bool b => if b then "True" else "False"
  | .int i => Text.ofInt i
  | .float x => x.text
  | .text t => Text.quoted t
  | .list items => '[' :: Text.join ", " (spelledAll items) ++ [']']
  | .tuple [item] => '(' :: spelled item ++ ",)"
  | .tuple items => '(' :: Text.join ", " (spelledAll items) ++ [')']
  | .bytes content => Text.quotedBytes content

/-- The forms of several values as they are `spelled`, one by one. -/
def spelledAll : List Value → List Text
  | [] => []
  | item :: items => spelled item :: spelledAll items

end

/-- Why a value has no text. -/
inductive Fault where
  /-- A byte string has no literal. -/
  | unsupported (content : Bytes)
  /-- The value is of a kind that the documented type cannot hold. -/
  | wrongKind
  /-- A number and its text are not converted into each other: a text stands where a number is
  formatted, or an integer has too many digits. -/
  | noConversion
  /-- An integer is too large for a float. -/
  | tooLarge
deriving DecidableEq, Repr

/-- The fault of a text that stands where a number is formatted, as a `Fault` without conversion. -/
@[match_pattern] abbrev Fault.textAsNumber : Fault := .noConversion

/-- The message of a `Fault` that names its value. -/
def Fault.message? : Fault → Option Text
  | .unsupported content =>
    some ("Cannot format argument of type bytes: " ++ Text.quotedBytes content ++
      ". Supported types: None, bool, int, float, str, list, tuple")
  | _ => none

/-- Why a part that holds no others cannot be put into running text: an integer with
`Integer.isLong` is not written out. -/
def inlineFault? : Value → Option Fault
  | .int i => if Integer.isLong i then some .noConversion else none
  | _ => none

/-- Why a part that holds no others has no literal: a byte string never has one, and any other has
its `inlineFault?`. -/
def literalFault? : Value → Option Fault
  | .bytes content => some (.unsupported content)
  | v => inlineFault? v

mutual

/-- The parts of a value that hold no others, in reading order. -/
def parts : Value → List Value
  | .list items => partsAmong items
  | .tuple items => partsAmong items
  | v => [v]

/-- The `parts` of several values that hold no others, in reading order. -/
def partsAmong : List Value → List Value
  | [] => []
  | item :: items => parts item ++ partsAmong items

end

/-- The literal of a value: its spelling, unless `literalFault?` finds a fault in one of its
`parts`. -/
def literal (v : Value) : Except Fault Text :=
  match v.parts.findSome? literalFault? with
  | some fault => .error fault
  | none => .ok (spelled v)

/-- A value put into running text: a text stands for itself, and anything else is `spelled`. -/
def inline : Value → Except Fault Text
  | .text t => .ok t
  | v =>
    match v.parts.findSome? inlineFault? with
    | some fault => .error fault
    | none => .ok (spelled v)

end Value

end TypedOps
