import TypedOps.Operation.TypeTag
import TypedOps.Value

/-!
# `TypedOps.Operation.Default`: how documentation shows a default

Element types are shown by their bare names and floats, which a catalog stores
in single precision, with seven significant digits. Every other value is shown
as a literal. The declared type and the value come from different places, so a
value may be of a kind that its type cannot format.
-/

set_option autoImplicit false

namespace TypedOps

namespace Value

/-- The number a value stands for where a float is formatted. -/
def asFloat : Value → Except Fault Floating
  | .float x => .ok x
  | .bool b => .ok (Floating.Format.double.ofInt (if b then 1 else 0))
  | .int i =>
    match Floating.Format.double.ofInt i with
    | .infinite _ => .error .tooLarge
    | x => .ok x
  | .text _ => .error .textAsNumber
  | _ => .error .wrongKind

/-- The float a documented default shows for a value, with seven significant digits. -/
def asShownFloat (v : Value) : Except Fault Value := do
  return .float ((← asFloat v).significant 7)

/-- The items of a value that can be walked through: a text yields its code
points, a byte string its numbers. -/
def items : Value → Except Fault (List Value)
  | .list vs | .tuple vs => .ok vs
  | .text t => .ok (t.map fun c => .text [c])
  | .bytes content => .ok (content.map fun b => .int b.toNat)
  | _ => .error .wrongKind

/-- The text a value is, or the fault that it is none. -/
def asText : Value → Except Fault Text
  | .text t => .ok t
  | _ => .error .wrongKind

/-- The text that documentation shows for the default `v` of an attribute. -/
def shownDefault (v : Value) (tag : Text) : Except Fault Text := do
  let (element, isList) := TypeTag.split tag
  if element = "type" then
    if isList then
      return "[" ++ Text.join ", " (← (← items v).mapM asText) ++ "]"
    else inline v
  else if element = "float" then
    if isList then literal (.list (← (← items v).mapM asShownFloat))
    else literal (← asShownFloat v)
  else literal v

end Value

end TypedOps
