import TypedOps.Operation.Basic

/-!
# `TypedOps.Operation.Classification`: which attributes a caller gives

An attribute that an input names is inferred: the runtime derives it from the
input, and a caller never gives it. Of the others, those without a default are
required and the rest are optional. Outputs infer nothing, since a caller has no
value to derive an attribute from.
-/

set_option autoImplicit false

namespace TypedOps

/-- The attributes of an operation by how a caller deals with them. -/
structure Classification where
  inferred : List Text
  required : List Attribute
  optional : List Attribute
  hasOutputs : Bool

/-- The names that inputs refer to, each once. -/
def Operation.inferredNames (op : Operation) : List Text :=
  (op.inputs.flatMap Argument.references).eraseDups

/-- The attributes a caller gives, in declaration order: all but those that inputs fix. -/
def Operation.givenAttributes (op : Operation) : List Attribute :=
  op.attributes.filter fun a => !op.inferredNames.contains a.name

/-- The classification of an operation's attributes. An attribute with a default is optional. -/
def Operation.classification (op : Operation) : Classification where
  inferred := op.inferredNames
  required := op.givenAttributes.filter fun a => !a.hasDefault
  optional := op.givenAttributes.filter fun a => a.hasDefault
  hasOutputs := !op.outputs.isEmpty

end TypedOps
