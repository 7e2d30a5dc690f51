import TypedOps.Catalog.Signature

/-!
# `TypedOps.Api.Schema`: documentation entries

A documentation entry describes one operation. Entries come from the catalog
itself and from override documents in the text format.
-/

set_option autoImplicit false

namespace TypedOps.Api

open Catalog (AttributeValue OperationDef)

/-- A public name of an operation, which may be deprecated by itself. -/
structure Endpoint where
  name : Text := []
  deprecationMessage : Text := []
  deprecationVersion : Int := 0
deriving DecidableEq

/-- The fields of an `Endpoint`, with their numbers and names. -/
def Endpoint.schema : Schema Endpoint where
  empty := {}
  fields :=
    [.scalar 1 "name" .text (·.name) fun m v => { m with name := v },
      .scalar 2 "deprecation_message" .text (·.deprecationMessage)
        fun m v => { m with deprecationMessage := v },
      .scalar 3 "deprecation_version" .int32 (·.deprecationVersion)
        fun m v => { m with deprecationVersion := v }]

/-- The documentation of an input or output. The name tells which one it is about. -/
structure ArgumentEntry where
  name : Text := []
  renameTo : Text := []
  description : Text := []
deriving DecidableEq

/-- The fields of an `ArgumentEntry`, with their numbers and names. -/
def ArgumentEntry.schema : Schema ArgumentEntry where
  empty := {}
  fields :=
    [.scalar 1 "name" .text (·.name) fun m v => { m with name := v },
      .scalar 2 "rename_to" .text (·.renameTo) fun m v => { m with renameTo := v },
      .scalar 3 "description" .text (·.description) fun m v => { m with description := v }]

/-- The documentation of an attribute. It may also give another default, as an `AttributeValue`. -/
structure AttributeEntry where
  name : Text := []
  renameTo : Text := []
  defaultValue : Option AttributeValue := none
  description : Text := []
deriving DecidableEq

/-- The fields of an `AttributeEntry`, with their numbers and names. -/
def AttributeEntry.schema : Schema AttributeEntry where
  empty := {}
  fields :=
    [.scalar 1 "name" .text (·.name) fun m v => { m with name := v },
      .scalar 2 "rename_to" .text (·.renameTo) fun m v => { m with renameTo := v },
      .message 3 "default_value" AttributeValue.schema (·.defaultValue)
        fun m v => { m with defaultValue := some v },
      .scalar 4 "description" .text (·.description) fun m v => { m with description := v }]

/-- The number of a named visibility. -/
def visibilityNumber? (name : Text) : Option Int :=
  if name = "DEFAULT_VISIBILITY" then some 0
  else if name = "VISIBLE" then some 1
  else if name = "SKIP" then some 2
  else if name = "HIDDEN" then some 3
  else none

/-- The documentation of an operation, as an override document or a catalog gives it. -/
structure Entry where
  operationName : Text := []
  visibility : Int := 0
  endpoints : List Endpoint := []
  inputs : List ArgumentEntry := []
  outputs : List ArgumentEntry := []
  attributes : List AttributeEntry := []
  summary : Text := []
  description : Text := []
  descriptionBefore : Text := []
  descriptionAfter : Text := []
  argumentOrder : List Text := []
  deprecationMessage : Text := []
  deprecationVersion : Int := 0
deriving DecidableEq

/-- The fields of an `Entry`, with their numbers and names. -/
def Entry.schema : Schema Entry where
  empty := {}
  fields :=
    [.scalar 1 "graph_op_name" .text (·.operationName) fun m v => { m with operationName := v },
      .scalar 2 "visibility" (.enumeration visibilityNumber?) (·.visibility)
        fun m v => { m with visibility := v },
      .messages 3 "endpoint" Endpoint.schema (·.endpoints) fun m v => { m with endpoints := v },
      .messages 4 "in_arg" ArgumentEntry.schema (·.inputs) fun m v => { m with inputs := v },
      .messages 5 "out_arg" ArgumentEntry.schema (·.outputs) fun m v => { m with outputs := v },
      .messages 6 "attr" AttributeEntry.schema (·.attributes)
        fun m v => { m with attributes := v },
      .scalar 7 "summary" .text (·.summary) fun m v => { m with summary := v },
      .scalar 8 "description" .text (·.description) fun m v => { m with description := v },
      .scalar 9 "description_prefix" .text (·.descriptionBefore)
        fun m v => { m with descriptionBefore := v },
      .scalar 10 "description_suffix" .text (·.descriptionAfter)
        fun m v => { m with descriptionAfter := v },
      .scalars 11 "arg_order" .text (·.argumentOrder) fun m v => { m with argumentOrder := v },
      .scalar 12 "deprecation_message" .text (·.deprecationMessage)
        fun m v => { m with deprecationMessage := v },
      .scalar 13 "deprecation_version" .int32 (·.deprecationVersion)
        fun m v => { m with deprecationVersion := v }]

/-- A document: an `Entry` for each of any operations, in any number. -/
structure Document where
  entries : List Entry := []
deriving DecidableEq

/-- The field of a `Document`, which holds all entries. -/
def Document.schema : Schema Document where
  empty := {}
  fields := [.messages 1 "op" Entry.schema (·.entries) fun m v => { m with entries := v }]

/-- The `Entry` that a catalog gives for an operation: its texts and the defaults of its attributes.
-/
def Entry.ofDefinition (op : OperationDef) : Entry where
  operationName := op.name
  summary := op.summary
  description := op.description
  inputs := op.inputs.map fun a => { name := a.name, description := a.description }
  outputs := op.outputs.map fun a => { name := a.name, description := a.description }
  attributes := op.attributes.map fun a =>
    { name := a.name, description := a.description, defaultValue := a.defaultValue }

/-- The `Documentation` that an entry amounts to, which is what generated code shows of it. -/
def Entry.documentation (e : Entry) : Documentation where
  name := e.operationName
  summary := e.summary
  description := e.description
  inputs := e.inputs.map fun a => ⟨a.name, a.description⟩
  outputs := e.outputs.map fun a => ⟨a.name, a.description⟩
  attributes := e.attributes.map fun a => ⟨a.name, a.description⟩
  deprecationMessage := e.deprecationMessage

end TypedOps.Api
