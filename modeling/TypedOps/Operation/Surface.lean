import TypedOps.Operation.Basic
import TypedOps.Operation.TypeTag

/-!
# `TypedOps.Operation.Surface`: which operations get a method

An operation is kept out of the generated module if it is internal, if it has an
attribute that no annotation fits, or if nobody has documented it, in this order.
Only the second reason is worth a warning.
-/

set_option autoImplicit false

namespace TypedOps

/-- Why an operation gets no method. The first reason that holds is the one that is given. -/
inductive SkipReason where
  | internal
  | unmappedAttribute (culprit : Attribute)
  | undocumented

/-- The word for a reason, as reports have it. -/
def SkipReason.label : SkipReason → Text
  | .internal => "internal"
  | .unmappedAttribute _ => "unmapped_attribute"
  | .undocumented => "undocumented"

/-- Something worth telling that ends nothing. -/
inductive Warning where
  /-- An operation was left out because of an attribute. -/
  | operationSkipped (operation tag name : Text)
  /-- An override document could not be merged. -/
  | overrideRefused (path : Text)
deriving DecidableEq, Repr

/-- The message of a warning, as it is printed for the user. -/
def Warning.message : Warning → Text
  | .operationSkipped operation tag name =>
    "Skip op " ++ operation ++ " due to attribute (" ++ tag ++ " " ++ name ++
      ") lacking a mapping to Python"
  | .overrideRefused path => "Could not merge api definitions from " ++ path

namespace Operation

/-- The first attribute that no annotation fits. -/
def firstUnmapped? (table : TypeTable) (op : Operation) : Option Attribute :=
  op.attributes.find? fun a => (TypeTag.mapped table a.tag).1.isNone

/-- Why an operation with the given documentation gets no method, if it gets
none. -/
def skipReason? (table : TypeTable) (op : Operation) (doc : Option Documentation) :
    Option SkipReason :=
  if op.isInternal then some .internal
  else
    match op.firstUnmapped? table with
    | some culprit => some (.unmappedAttribute culprit)
    | none => if doc.any fun d => d.summary != [] then none else some .undocumented

/-- The warnings that come with a reason: only an unmapped attribute is warned of. -/
def skipWarnings (op : Operation) : SkipReason → List Warning
  | .unmappedAttribute culprit => [.operationSkipped op.name culprit.tag culprit.name]
  | _ => []

end Operation

end TypedOps
