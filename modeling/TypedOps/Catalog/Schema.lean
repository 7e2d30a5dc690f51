import TypedOps.Catalog.DataType
import TypedOps.Message.Field

/-!
# `TypedOps.Catalog.Schema`: the messages of an operation catalog

A catalog is a list of operation definitions. The structures here hold every
declared field, also those the generator never looks at: they take part in
decoding, where a malformed one makes the catalog malformed, and in the text
format, where giving one twice is a fault. Fields that are not declared, such as
tensor values and functions, are passed over.
-/

set_option autoImplicit false

namespace TypedOps.Catalog

/-- One dimension of a shape; minus one where its size is not known. -/
structure Dimension where
  size : Int := 0
  name : Text := []
deriving DecidableEq

/-- The fields of a dimension, with their numbers and names. -/
def Dimension.schema : Schema Dimension where
  empty := {}
  fields :=
    [.scalar 1 "size" .int64 (·.size) fun m v => { m with size := v },
      .scalar 2 "name" .text (·.name) fun m v => { m with name := v }]

/-- A shape, whose dimensions mean nothing if its rank is unknown. -/
structure Shape where
  dimensions : List Dimension := []
  unknownRank : Bool := false
deriving DecidableEq

/-- The fields of a shape, with their numbers and names. -/
def Shape.schema : Schema Shape where
  empty := {}
  fields :=
    [.messages 2 "dim" Dimension.schema (·.dimensions) fun m v => { m with dimensions := v },
      .scalar 3 "unknown_rank" .bool (·.unknownRank) fun m v => { m with unknownRank := v }]

/-- A list value. Nothing says which kind of list it is but the member that has items. -/
structure ListValue where
  strings : List Bytes := []
  ints : List Int := []
  floats : List Floating := []
  bools : List Bool := []
  types : List Int := []
  shapes : List Shape := []
deriving DecidableEq

/-- The element types, as an enumeration whose names are those of `DataType.number?`. -/
def dataType : Scalar Int := .enumeration DataType.number?

/-- The fields of a list value, with their numbers and names. -/
def ListValue.schema : Schema ListValue where
  empty := {}
  fields :=
    [.scalars 2 "s" .bytes (·.strings) fun m v => { m with strings := v },
      .scalars 3 "i" .int64 (·.ints) fun m v => { m with ints := v },
      .scalars 4 "f" .float (·.floats) fun m v => { m with floats := v },
      .scalars 5 "b" .bool (·.bools) fun m v => { m with bools := v },
      .scalars 6 "type" dataType (·.types) fun m v => { m with types := v },
      .messages 7 "shape" Shape.schema (·.shapes) fun m v => { m with shapes := v }]

/-- The value of an attribute: at most one of these. -/
inductive AttributeValue where
  | unset
  | list (items : ListValue)
  | string (content : Bytes)
  | int (i : Int)
  | float (x : Floating)
  | bool (b : Bool)
  | type (number : Int)
  | shape (s : Shape)
  | placeholder (name : Text)
deriving DecidableEq

namespace AttributeValue

/-- Whether a member is set: in the text form no second one may be given. -/
def isSet : AttributeValue → Bool
  | .unset => false
  | _ => true

/-- The list, if the value is one. -/
def list? : AttributeValue → Option ListValue
  | .list items => some items
  | _ => none

/-- The byte string, if the value is one. -/
def string? : AttributeValue → Option Bytes
  | .string content => some content
  | _ => none

/-- The integer, if the value is one. -/
def int? : AttributeValue → Option Int
  | .int i => some i
  | _ => none

/-- The float, if the value is one. -/
def float? : AttributeValue → Option Floating
  | .float x => some x
  | _ => none

/-- The truth value, if the value is one. -/
def bool? : AttributeValue → Option Bool
  | .bool b => some b
  | _ => none

/-- The element type, if the value is one. -/
def type? : AttributeValue → Option Int
  | .type number => some number
  | _ => none

/-- The shape, if the value is one. -/
def shape? : AttributeValue → Option Shape
  | .shape s => some s
  | _ => none

/-- The placeholder, if the value is one. -/
def placeholder? : AttributeValue → Option Text
  | .placeholder name => some name
  | _ => none

/-- The members of an attribute value. Setting one of them unsets the others. -/
def schema : Schema AttributeValue where
  empty := .unset
  fields :=
    [.choiceMessage 1 "list" ListValue.schema isSet list? fun _ v => .list v,
      .choiceScalar 2 "s" .bytes isSet string? fun _ v => .string v,
      .choiceScalar 3 "i" .int64 isSet int? fun _ v => .int v,
      .choiceScalar 4 "f" .float isSet float? fun _ v => .float v,
      .choiceScalar 5 "b" .bool isSet bool? fun _ v => .bool v,
      .choiceScalar 6 "type" dataType isSet type? fun _ v => .type v,
      .choiceMessage 7 "shape" Shape.schema isSet shape? fun _ v => .shape v,
      .choiceScalar 9 "placeholder" .text isSet placeholder? fun _ v => .placeholder v]

end AttributeValue

/-- When and why an operation was deprecated. -/
structure Deprecation where
  version : Int := 0
  explanation : Text := []
deriving DecidableEq

/-- The fields of a deprecation, with their numbers and names. -/
def Deprecation.schema : Schema Deprecation where
  empty := {}
  fields :=
    [.scalar 1 "version" .int32 (·.version) fun m v => { m with version := v },
      .scalar 2 "explanation" .text (·.explanation) fun m v => { m with explanation := v }]

/-- An input or output as the catalog defines it. -/
structure ArgumentDef where
  name : Text := []
  description : Text := []
  type : Int := 0
  typeAttr : Text := []
  numberAttr : Text := []
  typeListAttr : Text := []
  isRef : Bool := false
deriving DecidableEq

/-- The fields of an argument, with their numbers and names. -/
def ArgumentDef.schema : Schema ArgumentDef where
  empty := {}
  fields :=
    [.scalar 1 "name" .text (·.name) fun m v => { m with name := v },
      .scalar 2 "description" .text (·.description) fun m v => { m with description := v },
      .scalar 3 "type" dataType (·.type) fun m v => { m with type := v },
      .scalar 4 "type_attr" .text (·.typeAttr) fun m v => { m with typeAttr := v },
      .scalar 5 "number_attr" .text (·.numberAttr) fun m v => { m with numberAttr := v },
      .scalar 6 "type_list_attr" .text (·.typeListAttr) fun m v => { m with typeListAttr := v },
      .scalar 16 "is_ref" .bool (·.isRef) fun m v => { m with isRef := v }]

/-- An attribute as the catalog defines it. -/
structure AttributeDef where
  name : Text := []
  type : Text := []
  defaultValue : Option AttributeValue := none
  description : Text := []
  hasMinimum : Bool := false
  minimum : Int := 0
  allowedValues : Option AttributeValue := none
deriving DecidableEq

/-- The fields of an attribute, with their numbers and names. -/
def AttributeDef.schema : Schema AttributeDef where
  empty := {}
  fields :=
    [.scalar 1 "name" .text (·.name) fun m v => { m with name := v },
      .scalar 2 "type" .text (·.type) fun m v => { m with type := v },
      .message 3 "default_value" AttributeValue.schema (·.defaultValue)
        fun m v => { m with defaultValue := some v },
      .scalar 4 "description" .text (·.description) fun m v => { m with description := v },
      .scalar 5 "has_minimum" .bool (·.hasMinimum) fun m v => { m with hasMinimum := v },
      .scalar 6 "minimum" .int64 (·.minimum) fun m v => { m with minimum := v },
      .message 7 "allowed_values" AttributeValue.schema (·.allowedValues)
        fun m v => { m with allowedValues := some v }]

/-- An operation as the catalog defines it. -/
structure OperationDef where
  name : Text := []
  inputs : List ArgumentDef := []
  outputs : List ArgumentDef := []
  attributes : List AttributeDef := []
  summary : Text := []
  description : Text := []
  deprecation : Option Deprecation := none
  isAggregate : Bool := false
  isStateful : Bool := false
  isCommutative : Bool := false
  allowsUninitializedInput : Bool := false
  controlOutputs : List Text := []
  isDistributedCommunication : Bool := false
deriving DecidableEq

/-- The fields of an operation, with their numbers and names. -/
def OperationDef.schema : Schema OperationDef where
  empty := {}
  fields :=
    [.scalar 1 "name" .text (·.name) fun m v => { m with name := v },
      .messages 2 "input_arg" ArgumentDef.schema (·.inputs) fun m v => { m with inputs := v },
      .messages 3 "output_arg" ArgumentDef.schema (·.outputs) fun m v => { m with outputs := v },
      .messages 4 "attr" AttributeDef.schema (·.attributes) fun m v => { m with attributes := v },
      .scalar 5 "summary" .text (·.summary) fun m v => { m with summary := v },
      .scalar 6 "description" .text (·.description) fun m v => { m with description := v },
      .message 8 "deprecation" Deprecation.schema (·.deprecation)
        fun m v => { m with deprecation := some v },
      .scalar 16 "is_aggregate" .bool (·.isAggregate) fun m v => { m with isAggregate := v },
      .scalar 17 "is_stateful" .bool (·.isStateful) fun m v => { m with isStateful := v },
      .scalar 18 "is_commutative" .bool (·.isCommutative)
        fun m v => { m with isCommutative := v },
      .scalar 19 "allows_uninitialized_input" .bool (·.allowsUninitializedInput)
        fun m v => { m with allowsUninitializedInput := v },
      .scalars 20 "control_output" .text (·.controlOutputs)
        fun m v => { m with controlOutputs := v },
      .scalar 21 "is_distributed_communication" .bool (·.isDistributedCommunication)
        fun m v => { m with isDistributedCommunication := v }]

/-- A catalog of operations, in the order in which they are listed. -/
structure OperationList where
  operations : List OperationDef := []
deriving DecidableEq

/-- The field of a catalog, which holds all operations. -/
def OperationList.schema : Schema OperationList where
  empty := {}
  fields :=
    [.messages 1 "op" OperationDef.schema (·.operations) fun m v => { m with operations := v }]

/-- The operations of a catalog in binary form, or nothing if the bytes are not one. -/
def decode? (content : Bytes) : Option (List OperationDef) :=
  (OperationList.schema.decode? content).map (·.operations)

/-- The binary form of a catalog, which `decode?` reads. -/
def encode (operations : List OperationDef) : Bytes :=
  OperationList.schema.encode ⟨operations⟩

/-- The operations of a catalog in text form, or why it cannot be read. -/
def ofText (t : Text) : Except ReadFault (List OperationDef) :=
  (OperationList.schema.ofText t).map (·.operations)

end TypedOps.Catalog
