import TypedOps.Text.Basic

/-!
# `TypedOps.Operation.TypeTag`: attribute type tags

A catalog names the type of an attribute by a tag: an element type, possibly
inside `list(...)`. A `TypeTable` says which element types generated code can
annotate and how. Tags of no element type, and element types the table lacks,
are unmapped.

The table is a parameter everywhere, so that statements about the filter and
about the emitter hold for any table and not only for `TypeTable.standard`.
-/

set_option autoImplicit false

namespace TypedOps

/-- The element types that attributes can have in generated code. -/
inductive ElementType where
  | int
  | float
  | bool
  | type
  | shape
  | tensor
  | string
deriving DecidableEq, Repr

namespace ElementType

/-- Every element type, in the order of their declaration. -/
def all : List ElementType := [.int, .float, .bool, .type, .shape, .tensor, .string]

/-- The name of an element type in a catalog. -/
def tag : ElementType → Text
  | .int => "int"
  | .float => "float"
  | .bool => "bool"
  | .type => "type"
  | .shape => "shape"
  | .tensor => "tensor"
  | .string => "string"

/-- The element type with the given name. -/
def ofTag? (t : Text) : Option ElementType := all.find? fun e => e.tag == t

/-- Whether values of the element type are passed by identity. -/
def isReference : ElementType → Bool
  | .tensor | .string | .shape => true
  | _ => false

/-- The constructor that normalises a value-like scalar before it is handed to
the runtime. -/
def constructor? : ElementType → Option Text
  | .int => some "int"
  | .float => some "float"
  | .bool => some "bool"
  | .type => some "DataType"
  | _ => none

end ElementType

/-- How each element type is annotated in generated code, where it can be. -/
abbrev TypeTable := ElementType → Option Text

namespace TypeTable

/-- The annotations of generated code. -/
def standard : TypeTable
  | .int => some "int"
  | .float => some "float"
  | .bool => some "bool"
  | .type => some "DataType"
  | .shape => some "Shape"
  | .tensor => some "Tensor"
  | .string => some "str"

/-- The table with some element types taken out. -/
def without (table : TypeTable) (removed : List ElementType) : TypeTable := fun e =>
  if removed.contains e then none else table e

end TypeTable

namespace TypeTag

/-- What stands inside `list(...)`, and whether that wrapper is there. -/
def split (tag : Text) : Text × Bool :=
  match Text.afterStart? "list(" tag with
  | some rest => if Text.endsWith tag ")" then (rest.dropLast, true) else (tag, false)
  | none => (tag, false)

/-- The annotation of the tag's element, and whether the tag is a list. -/
def mapped (table : TypeTable) (tag : Text) : Option Text × Bool :=
  ((ElementType.ofTag? (split tag).1).bind table, (split tag).2)

/-- The annotation of a tag, for an element or for a list of elements. -/
def typeHint? (table : TypeTable) (tag : Text) : Option Text :=
  match mapped table tag with
  | (none, _) => none
  | (some element, true) => some ("list[" ++ element ++ "]")
  | (some element, false) => some element

/-- Whether values of the tag are passed by identity: lists and some elements. -/
def isReference (tag : Text) : Bool :=
  (split tag).2 || ((ElementType.ofTag? (split tag).1).map ElementType.isReference).getD false

/-- The constructor that normalises values of the tag; none for values passed by
identity. -/
def constructor? (tag : Text) : Option Text :=
  if isReference tag then none else (ElementType.ofTag? tag).bind ElementType.constructor?

end TypeTag

end TypedOps
