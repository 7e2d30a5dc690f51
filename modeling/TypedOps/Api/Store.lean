import TypedOps.Api.Override

/-!
# `TypedOps.Api.Store`: documentation entries by operation

A `Store` begins with the entries a catalog gives and is refined by override
documents. A later document overwrites an earlier one field by field: an empty
field leaves what is there, a list of endpoints or of argument names replaces the
old list, descriptions are replaced and then extended, and arguments are matched
by name. A document that does not parse leaves the store as it was.
-/

set_option autoImplicit false

namespace TypedOps.Api

/-- The new value unless it is the default, which means that a document did not give one. -/
def overwrite {α : Type} [BEq α] (default old new : α) : α := if new == default then old else new

/-- Change the last item with a property. -/
def modifyLast {α : Type} (p : α → Bool) (f : α → α) : List α → List α
  | [] => []
  | x :: xs => if p x && !xs.any p then f x :: xs else x :: modifyLast p f xs

/-- Merge items matched by name. A new item changes the last old one of its name (`modifyLast`), or
is added behind all others if no old one has it. -/
def mergeNamed {α : Type} (name : α → Text) (merge : α → α → α) (old new : List α) : List α :=
  let known (x : α) := old.any fun y => name y == name x
  let merged := (new.filter known).foldl
    (fun items x => modifyLast (fun y => name y == name x) (merge · x) items) old
  merged ++ new.filter fun x => !known x

/-- Merge the documentation of an argument: each text that the new one gives replaces the old one,
by `overwrite`. -/
def ArgumentEntry.merge (old new : ArgumentEntry) : ArgumentEntry :=
  { old with
    renameTo := overwrite [] old.renameTo new.renameTo
    description := overwrite [] old.description new.description }

/-- Merge the documentation of an attribute. A default that the new one gives replaces the old one
as a whole. -/
def AttributeEntry.merge (old new : AttributeEntry) : AttributeEntry :=
  { old with
    renameTo := overwrite [] old.renameTo new.renameTo
    defaultValue := new.defaultValue.or old.defaultValue
    description := overwrite [] old.description new.description }

/-- A description after an entry: replaced by `overwrite`, then extended in front and behind. -/
def mergedDescription (old : Text) (new : Entry) : Text :=
  let body := overwrite [] old new.description
  let body := if new.descriptionBefore.isEmpty then body else new.descriptionBefore ++ '\n' :: body
  if new.descriptionAfter.isEmpty then body else body ++ '\n' :: new.descriptionAfter

/-- Merge an entry into the one of its operation, field by field. Items in lists are matched by
`mergeNamed`. -/
def Entry.merge (old new : Entry) : Entry :=
  { old with
    visibility := overwrite 0 old.visibility new.visibility
    endpoints := overwrite [] old.endpoints new.endpoints
    inputs := mergeNamed (·.name) ArgumentEntry.merge old.inputs new.inputs
    outputs := mergeNamed (·.name) ArgumentEntry.merge old.outputs new.outputs
    attributes := mergeNamed (·.name) AttributeEntry.merge old.attributes new.attributes
    argumentOrder := overwrite [] old.argumentOrder new.argumentOrder
    summary := overwrite [] old.summary new.summary
    description := mergedDescription old.description new
    deprecationMessage := overwrite [] old.deprecationMessage new.deprecationMessage
    deprecationVersion := overwrite 0 old.deprecationVersion new.deprecationVersion }

/-- An `Entry` for each operation name, in the order in which the names came. -/
structure Store where
  entries : List (Text × Entry) := []

namespace Store

/-- The entry of an operation, or nothing for an operation that neither the catalog nor a document
has named. -/
def get? (store : Store) (name : Text) : Option Entry := store.entries.lookup name

/-- Whether an operation has an entry, that is, whether `get?` finds one. -/
def contains (store : Store) (name : Text) : Bool := (store.get? name).isSome

/-- The number of operations with an entry in the `Store`. -/
def size (store : Store) : Nat := store.entries.length

/-- Give an operation an entry in place of the one it has, or behind all others. -/
def insert (store : Store) (name : Text) (entry : Entry) : Store :=
  ⟨go store.entries⟩
where
  go : List (Text × Entry) → List (Text × Entry)
    | [] => [(name, entry)]
    | (n, e) :: rest => if n == name then (name, entry) :: rest else (n, e) :: go rest

/-- The entries that a catalog gives, each by `Entry.ofDefinition`. Of operations with one name the
last is kept. -/
def ofDefinitions (operations : List Catalog.OperationDef) : Store :=
  operations.foldl (fun store op => store.insert op.name (Entry.ofDefinition op)) {}

/-- Merge an entry of a document by `Entry.merge`. An operation without an entry gets an empty one
first. -/
def mergeEntry (store : Store) (new : Entry) : Store :=
  let old := (store.get? new.operationName).getD { operationName := new.operationName }
  store.insert new.operationName (old.merge new)

/-- Merge a document entry by entry (`mergeEntry`), or nothing if it does not parse. No entry of
such a document is merged. -/
def put? (store : Store) (text : Text) : Option Store :=
  (Document.ofText? text).map fun entries => entries.foldl mergeEntry store

/-- The `Documentation` that the entry of an operation amounts to. -/
def documentation? (store : Store) (name : Text) : Option Documentation :=
  (store.get? name).map Entry.documentation

end Store

end TypedOps.Api
