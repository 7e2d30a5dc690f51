import TypedOps.Value

/-!
# `TypedOps.Operation.Basic`: signatures of operations and their documentation

An `Operation` is the signature a catalog gives for one graph operation. A
`Documentation` is the text written for it. Both are plain records: no type is
mapped and nothing is classified here.
-/

set_option autoImplicit false

namespace TypedOps

/-- An input or output of an operation. Each reference names the attribute that
fixes the element type, a list of element types or a repetition count; it is
empty where nothing does. -/
structure Argument where
  name : Text
  typeAttr : Text := []
  typeListAttr : Text := []
  numberAttr : Text := []
  description : Text := []

/-- Whether an argument stands for any number of handles. -/
def Argument.isList (a : Argument) : Bool := a.typeListAttr != [] || a.numberAttr != []

/-- The attributes an argument refers to. -/
def Argument.references (a : Argument) : List Text :=
  [a.typeAttr, a.typeListAttr, a.numberAttr].filter (· != [])

/-- An attribute that an operation declares. One without a default is required.
A default without a plain form, such as a tensor, has the value `nothing`. -/
structure Attribute where
  name : Text
  tag : Text
  hasDefault : Bool := false
  defaultValue : Value := .nothing
  description : Text := []

/-- The signature of an operation. A deprecation version of zero means that the
operation is not deprecated. -/
structure Operation where
  name : Text
  inputs : List Argument := []
  outputs : List Argument := []
  attributes : List Attribute := []
  summary : Text := []
  description : Text := []
  deprecationVersion : Int := 0
  deprecationExplanation : Text := []

/-- Whether an operation is internal to the runtime, which its name shows. -/
def Operation.isInternal (op : Operation) : Bool := Text.startsWith op.name "_"

/-- A description of the thing with the given name, which may name nothing that there is. -/
structure NamedDescription where
  name : Text
  description : Text := []

/-- The documentation of an operation. An empty summary keeps the operation out
of the public surface. -/
structure Documentation where
  name : Text
  summary : Text := []
  description : Text := []
  inputs : List NamedDescription := []
  outputs : List NamedDescription := []
  attributes : List NamedDescription := []
  deprecationMessage : Text := []

/-- The first description given for a name, empty if there is none. -/
def describe (entries : List NamedDescription) (name : Text) : Text :=
  ((entries.find? (·.name == name)).map (·.description)).getD []

end TypedOps
