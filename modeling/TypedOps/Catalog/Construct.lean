import TypedOps.Catalog.Signature

/-!
# `TypedOps.Catalog.Construct`: catalog entries made by hand

`AttributeValue.ofValue` stores a plain value as the default of an attribute with
a given type tag. Element types may be given by name or by number, shapes as
their sizes or as nothing for an unknown rank. What can be stored depends on the
tag alone; whether the value fits is found item by item, from the left.
-/

set_option autoImplicit false

namespace TypedOps.Catalog

/-- Why a catalog entry cannot be made. -/
inductive ConstructFault where
  /-- The tag has no simple values. -/
  | unsupportedType (tag : Text)
  /-- No element type has this name. -/
  | unknownDataType (name : Text)
  /-- The value is of a kind that the tag does not take. -/
  | wrongKind
  /-- An integer does not fit its field. -/
  | outOfRange
  /-- A number does not fit a machine number at all. -/
  | overflow
deriving DecidableEq, Repr

/-- The message of a `ConstructFault` that names what it is about. -/
def ConstructFault.message? : ConstructFault → Option Text
  | .unsupportedType tag => some ("Cannot build a default for attribute type " ++ tag)
  | _ => none

/-- An integer of at most `bits` bits with its sign. -/
def storedInt (bits : Nat) : Value → Except ConstructFault Int
  | .int i =>
    if MachineInt.fits bits i then .ok i else .error .outOfRange
  | _ => .error .wrongKind

/-- The single-precision number stored for a value, rounded if the value has more digits. -/
def storedFloat : Value → Except ConstructFault Floating
  | .float x => .ok (Floating.Format.single.convert x)
  | .bool b => .ok (Floating.Format.single.ofInt (if b then 1 else 0))
  | .int i =>
    match Floating.Format.double.ofInt i with
    | .infinite _ => .error .overflow
    | x => .ok (Floating.Format.single.convert x)
  | _ => .error .wrongKind

/-- The truth value stored for a value; any integer but zero is true. -/
def storedBool : Value → Except ConstructFault Bool
  | .bool b => .ok b
  | .int i => if MachineInt.fits 64 i then .ok (i != 0) else .error .overflow
  | _ => .error .wrongKind

/-- The byte string stored for a value. A text is stored as UTF-8. -/
def storedString : Value → Except ConstructFault Bytes
  | .text t => .ok (Utf8.encode t)
  | .bytes content => .ok content
  | _ => .error .wrongKind

/-- The number of a named element type. -/
def dataTypeNumber (name : Text) : Except ConstructFault Int :=
  match DataType.number? name with
  | some number => .ok number
  | none => .error (.unknownDataType name)

/-- The element type stored for a value, which is a name or a number. -/
def storedType : Value → Except ConstructFault Int
  | .text name => dataTypeNumber name
  | v => storedInt 32 v

/-- The items of a value that can be walked through. -/
def storedItems : Value → Except ConstructFault (List Value)
  | .list vs | .tuple vs => .ok vs
  | .text t => .ok (t.map fun c => .text [c])
  | .bytes content => .ok (content.map fun b => .int b.toNat)
  | _ => .error .wrongKind

/-- The shape stored for a value: no value stands for an unknown rank, and a list or tuple for the
sizes. -/
def storedShape : Value → Except ConstructFault Shape
  | .nothing => .ok { unknownRank := true }
  | v => do
    let sizes ← (← storedItems v).mapM (storedInt 64)
    return { dimensions := sizes.map fun size => { size := size } }

/-- The member of a list value that holds items of the given element tag. The items are stored one
by one, and a tag without simple values is noticed at the first item only. -/
def storedList (tag element : Text) (items : List Value) : Except ConstructFault ListValue :=
  if element = "int" then do return { ints := ← items.mapM (storedInt 64) }
  else if element = "float" then do return { floats := ← items.mapM storedFloat }
  else if element = "bool" then do return { bools := ← items.mapM storedBool }
  else if element = "string" then do return { strings := ← items.mapM storedString }
  else if element = "type" then do return { types := ← items.mapM storedType }
  else if element = "shape" then do return { shapes := ← items.mapM storedShape }
  else if items.isEmpty then .ok {}
  else .error (.unsupportedType tag)

/-- The attribute value that stores a plain value under a type tag. A tag that begins like a list is
taken for one, and its last code point for the closing bracket. -/
def AttributeValue.ofValue (v : Value) (tag : Text) : Except ConstructFault AttributeValue :=
  match Text.afterStart? "list(" tag with
  | some rest => do return .list (← storedList tag rest.dropLast (← storedItems v))
  | none =>
    if tag = "int" then (storedInt 64 v).map .int
    else if tag = "float" then (storedFloat v).map .float
    else if tag = "bool" then (storedBool v).map .bool
    else if tag = "string" then (storedString v).map .string
    else if tag = "type" then (storedType v).map .type
    else if tag = "shape" then (storedShape v).map .shape
    else .error (.unsupportedType tag)

/-- What is given as the default of an attribute: a plain value, or one in the form in which it is
stored. -/
inductive GivenDefault where
  | absent
  | value (v : Value)
  | stored (v : AttributeValue)

/-- The default that is stored under a type tag, if one is given. The value `nothing` also stands
for none. -/
def GivenDefault.toStored (tag : Text) :
    GivenDefault → Except ConstructFault (Option AttributeValue)
  | .absent | .value .nothing => .ok none
  | .value v => (AttributeValue.ofValue v tag).map some
  | .stored v => .ok (some v)

/-- An attribute definition. Without a default the attribute is required. -/
def AttributeDef.construct (name tag : Text) (given : GivenDefault) (description : Text) :
    Except ConstructFault AttributeDef := do
  return { name := name, type := tag, defaultValue := ← given.toStored tag,
           description := description }

/-- An argument definition with a fixed element type given by name or number. -/
def ArgumentDef.construct (a : Argument) (dataType : Value) :
    Except ConstructFault ArgumentDef := do
  let type ← storedType dataType
  return { name := a.name, description := a.description, type := type, typeAttr := a.typeAttr,
           numberAttr := a.numberAttr, typeListAttr := a.typeListAttr }

/-- A deprecation; its version has thirty-two bits. -/
def Deprecation.construct (version : Int) (explanation : Text) :
    Except ConstructFault Deprecation := do
  return { version := ← storedInt 32 (.int version), explanation := explanation }

/-- An operation definition. A deprecation is given by its version and its explanation. -/
def OperationDef.construct (name : Text) (inputs outputs : List ArgumentDef)
    (attributes : List AttributeDef) (summary description : Text)
    (deprecation : Option (Int × Text)) : Except ConstructFault OperationDef := do
  let deprecation ←
    match deprecation with
    | some (version, explanation) => (Deprecation.construct version explanation).map some
    | none => pure none
  return { name := name, inputs := inputs, outputs := outputs, attributes := attributes,
           summary := summary, description := description, deprecation := deprecation }

/-! ## Whole operations

An operation as it is written down by hand, with its arguments and attributes still to be
made. They are made from the left, and the first fault ends it. -/

/-- An argument and its fixed element type, as `ArgumentDef.construct` takes them. -/
structure GivenArgument where
  argument : Argument
  dataType : Value := .int 0

/-- An attribute, as `AttributeDef.construct` takes it. -/
structure GivenAttribute where
  name : Text
  tag : Text
  default : GivenDefault := .absent
  description : Text := []

/-- An operation, as `OperationDef.construct` takes it, with its parts not yet made. -/
structure GivenOperation where
  name : Text
  inputs : List GivenArgument := []
  outputs : List GivenArgument := []
  attributes : List GivenAttribute := []
  summary : Text := []
  description : Text := []
  deprecation : Option (Int × Text) := none

/-- The definition of an argument, or why it cannot be made. -/
def GivenArgument.definition (given : GivenArgument) : Except ConstructFault ArgumentDef :=
  ArgumentDef.construct given.argument given.dataType

/-- The definition of an attribute, or why it cannot be made. -/
def GivenAttribute.definition (given : GivenAttribute) : Except ConstructFault AttributeDef :=
  AttributeDef.construct given.name given.tag given.default given.description

/-- The definition of an operation. The first part that cannot be made is the fault. -/
def GivenOperation.definition (given : GivenOperation) : Except ConstructFault OperationDef := do
  let inputs ← given.inputs.mapM GivenArgument.definition
  let outputs ← given.outputs.mapM GivenArgument.definition
  let attributes ← given.attributes.mapM GivenAttribute.definition
  OperationDef.construct given.name inputs outputs attributes given.summary given.description
    given.deprecation

end TypedOps.Catalog
