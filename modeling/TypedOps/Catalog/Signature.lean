import TypedOps.Catalog.Schema
import TypedOps.Operation.Basic

/-!
# `TypedOps.Catalog.Signature`: signatures of catalog operations

A default value becomes a plain value: element types are named, shapes are
tuples, byte strings are decoded leniently. A list value does not say what it is a
list of, so the first member with items decides; without items it is the empty
list whatever its declared type. A value that holds nothing the schema knows has
the plain value `nothing`, and still counts as a default.
-/

set_option autoImplicit false

namespace TypedOps.Catalog

/-- The sizes of a `Shape`, or nothing for an unknown rank. -/
def Shape.plain (s : Shape) : Value :=
  if s.unknownRank then .nothing else .tuple (s.dimensions.map fun d => .int d.size)

/-- The plain value of a byte string, by `Utf8.decodeLenient`. What is not UTF-8 in it is replaced.
-/
def plainString (content : Bytes) : Value := .text (Utf8.decodeLenient content)

/-- The plain value of an element type, which is its name in `DataType`. -/
def plainType (number : Int) : Value := .text (DataType.name number)

/-- The items of the first member of a `ListValue` that has any. -/
def ListValue.plainItems (v : ListValue) : List Value :=
  if !v.strings.isEmpty then v.strings.map plainString
  else if !v.ints.isEmpty then v.ints.map .int
  else if !v.floats.isEmpty then v.floats.map .float
  else if !v.bools.isEmpty then v.bools.map .bool
  else if !v.types.isEmpty then v.types.map plainType
  else v.shapes.map Shape.plain

/-- The plain `Value` of an attribute value, as generated code and documentation show it. -/
def AttributeValue.plain : AttributeValue → Value
  | .unset => .nothing
  | .list items => .list items.plainItems
  | .string content => plainString content
  | .int i => .int i
  | .float x => .float x
  | .bool b => .bool b
  | .type number => plainType number
  | .shape s => s.plain
  | .placeholder name => .text name

/-- The signature of an `ArgumentDef`: what generated code needs to know of it. -/
def ArgumentDef.signature (a : ArgumentDef) : Argument where
  name := a.name
  typeAttr := a.typeAttr
  typeListAttr := a.typeListAttr
  numberAttr := a.numberAttr
  description := a.description

/-- The signature of an `AttributeDef`. Having a default and having a value are told apart, as a
default may be empty. -/
def AttributeDef.signature (a : AttributeDef) : Attribute where
  name := a.name
  tag := a.type
  hasDefault := a.defaultValue.isSome
  defaultValue := (a.defaultValue.map AttributeValue.plain).getD .nothing
  description := a.description

/-- The signature of an `OperationDef`: its parts in the catalog's order. -/
def OperationDef.signature (op : OperationDef) : Operation where
  name := op.name
  inputs := op.inputs.map ArgumentDef.signature
  outputs := op.outputs.map ArgumentDef.signature
  attributes := op.attributes.map AttributeDef.signature
  summary := op.summary
  description := op.description
  deprecationVersion := (op.deprecation.map (·.version)).getD 0
  deprecationExplanation := (op.deprecation.map (·.explanation)).getD []

/-- The signatures of a catalog, in its order, each by `OperationDef.signature`. -/
def signatures (operations : List OperationDef) : List Operation :=
  operations.map OperationDef.signature

end TypedOps.Catalog
