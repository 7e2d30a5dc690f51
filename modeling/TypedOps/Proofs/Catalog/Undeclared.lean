import TypedOps.Proofs.Message.Undeclared
import TypedOps.Proofs.Operation.Classification
import TypedOps.Run.Generator

/-!
# `TypedOps.Proofs.Catalog.Undeclared`: what a catalog holds and its types do not declare

A catalog is written by a runtime that knows more fields than the messages here declare. Such fields
may stand between the records of any message of a catalog, at every level, and the operations stay
the same. So each message type gets the growth that it overlooks, from the innermost to the catalog.

They are not quite nothing, though. A default that holds nothing but such fields is still a default:
its value is not known, but the attribute has one, and need not be given by a caller.
-/

set_option autoImplicit false

namespace TypedOps.Catalog

open Wire (WellFormed Record)

/-! ### Growth at every level

`Enlarges` says of each type how its messages may grow, with the levels of messages and groups that
are left to them, and `overlooks` that they then hold the same. -/

/-- Bytes of a dimension with records of undeclared fields put in anywhere (`Wire.Enlarges`). A
dimension has no messages in it, so only the records themselves can be added. -/
def Dimension.Enlarges : Nat → Bytes → Bytes → Prop :=
  Dimension.schema.Enlarges fun _ _ _ _ => False

/-- Bytes of a shape with records of undeclared fields put in anywhere, also inside its dimensions,
where `Dimension.Enlarges` says so. -/
def Shape.Enlarges : Nat → Bytes → Bytes → Prop :=
  Shape.schema.Enlarges fun depth number content content' =>
    number = 2 ∧ Dimension.Enlarges depth content content'

/-- Bytes of a list value with records of undeclared fields put in anywhere, also inside its shapes,
where `Shape.Enlarges` says so. -/
def ListValue.Enlarges : Nat → Bytes → Bytes → Prop :=
  ListValue.schema.Enlarges fun depth number content content' =>
    number = 7 ∧ Shape.Enlarges depth content content'

/-- Bytes of an attribute value with records of undeclared fields put in anywhere, also inside its
list (`ListValue.Enlarges`) or its shape (`Shape.Enlarges`). -/
def AttributeValue.Enlarges : Nat → Bytes → Bytes → Prop :=
  AttributeValue.schema.Enlarges fun depth number content content' =>
    number = 1 ∧ ListValue.Enlarges depth content content' ∨
      number = 7 ∧ Shape.Enlarges depth content content'

/-- Bytes of a deprecation with records of undeclared fields put in anywhere (`Wire.Enlarges`). It
has no messages in it. -/
def Deprecation.Enlarges : Nat → Bytes → Bytes → Prop :=
  Deprecation.schema.Enlarges fun _ _ _ _ => False

/-- Bytes of an argument with records of undeclared fields put in anywhere (`Wire.Enlarges`). It has
no messages in it. -/
def ArgumentDef.Enlarges : Nat → Bytes → Bytes → Prop :=
  ArgumentDef.schema.Enlarges fun _ _ _ _ => False

/-- Bytes of an attribute with records of undeclared fields put in anywhere, also inside its default
and its allowed values, where `AttributeValue.Enlarges` says so. -/
def AttributeDef.Enlarges : Nat → Bytes → Bytes → Prop :=
  AttributeDef.schema.Enlarges fun depth number content content' =>
    (number = 3 ∨ number = 7) ∧ AttributeValue.Enlarges depth content content'

/-- Bytes of an operation with records of undeclared fields put in anywhere, also inside its
arguments (`ArgumentDef.Enlarges`), attributes (`AttributeDef.Enlarges`) and deprecation
(`Deprecation.Enlarges`). -/
def OperationDef.Enlarges : Nat → Bytes → Bytes → Prop :=
  OperationDef.schema.Enlarges fun depth number content content' =>
    (number = 2 ∨ number = 3) ∧ ArgumentDef.Enlarges depth content content' ∨
      number = 4 ∧ AttributeDef.Enlarges depth content content' ∨
        number = 8 ∧ Deprecation.Enlarges depth content content'

/-- Bytes of a catalog with records of undeclared fields put in anywhere, also inside its operations
(`OperationDef.Enlarges`). It is the relation at the top of the tree. -/
def OperationList.Enlarges : Nat → Bytes → Bytes → Prop :=
  OperationList.schema.Enlarges fun depth number content content' =>
    number = 1 ∧ OperationDef.Enlarges depth content content'

/-- Reading a dimension overlooks undeclared fields, by `Schema.Overlooks` without any messages
inside. -/
theorem Dimension.overlooks : Dimension.schema.Overlooks Dimension.Enlarges :=
  Schema.overlooks_enlarges fun h => h.elim

/-- The schema of shapes `Overlooks` undeclared fields, because that of dimensions does. -/
theorem Shape.overlooks : Shape.schema.Overlooks Shape.Enlarges :=
  Schema.overlooks_enlarges fun h m => by
    obtain ⟨rfl, hdimension⟩ := h
    exact Dimension.overlooks.load_messages hdimension m

/-- The schema of list values `Overlooks` undeclared fields, because that of shapes does. -/
theorem ListValue.overlooks : ListValue.schema.Overlooks ListValue.Enlarges :=
  Schema.overlooks_enlarges fun h m => by
    obtain ⟨rfl, hshape⟩ := h
    exact Shape.overlooks.load_messages hshape m

/-- The schema of attribute values `Overlooks` undeclared fields, because those of lists and shapes
do. -/
theorem AttributeValue.overlooks : AttributeValue.schema.Overlooks AttributeValue.Enlarges :=
  Schema.overlooks_enlarges fun h m => by
    obtain ⟨rfl, hlist⟩ | ⟨rfl, hshape⟩ := h
    · exact ListValue.overlooks.load_choiceMessage hlist m
    · exact Shape.overlooks.load_choiceMessage hshape m

/-- The schema of deprecations `Overlooks` undeclared fields, there being no messages in it. -/
theorem Deprecation.overlooks : Deprecation.schema.Overlooks Deprecation.Enlarges :=
  Schema.overlooks_enlarges fun h => h.elim

/-- The schema of arguments `Overlooks` undeclared fields, there being no messages in it. -/
theorem ArgumentDef.overlooks : ArgumentDef.schema.Overlooks ArgumentDef.Enlarges :=
  Schema.overlooks_enlarges fun h => h.elim

/-- The schema of attributes `Overlooks` undeclared fields, because that of attribute values does.
-/
theorem AttributeDef.overlooks : AttributeDef.schema.Overlooks AttributeDef.Enlarges :=
  Schema.overlooks_enlarges fun h m => by
    obtain ⟨rfl | rfl, hvalue⟩ := h
    · exact AttributeValue.overlooks.load_message hvalue m
    · exact AttributeValue.overlooks.load_message hvalue m

/-- The schema of operations `Overlooks` undeclared fields, because those of its parts do. -/
theorem OperationDef.overlooks : OperationDef.schema.Overlooks OperationDef.Enlarges :=
  Schema.overlooks_enlarges fun h m => by
    obtain ⟨rfl | rfl, hargument⟩ | ⟨rfl, hattribute⟩ | ⟨rfl, hdeprecation⟩ := h
    · exact ArgumentDef.overlooks.load_messages hargument m
    · exact ArgumentDef.overlooks.load_messages hargument m
    · exact AttributeDef.overlooks.load_messages hattribute m
    · exact Deprecation.overlooks.load_message hdeprecation m

/-- The schema of catalogs `Overlooks` undeclared fields at every level, because that of operations
does. -/
theorem OperationList.overlooks : OperationList.schema.Overlooks OperationList.Enlarges :=
  Schema.overlooks_enlarges fun h m => by
    obtain ⟨rfl, hoperation⟩ := h
    exact OperationDef.overlooks.load_messages hoperation m

/-! ### Defaults that say nothing -/

/-- Bytes of an attribute with a default, in which no default holds anything declared: all of them
are `Hollow`. -/
def AttributeDef.HollowDefault (depth : Nat) (bytes : Bytes) : Prop :=
  ∃ records, WellFormed depth records bytes ∧
    (∃ value, ⟨3, .delimited value⟩ ∈ records) ∧
    ∀ value, ⟨3, .delimited value⟩ ∈ records → AttributeValue.schema.Hollow (depth - 1) value

/-- Each field of an attribute other than number 3 `Keeps` its default, whatever it reads. -/
theorem AttributeDef.keeps_defaultValue :
    ∀ field ∈ AttributeDef.schema.fields, field.number ≠ 3 → field.Keeps (·.defaultValue) := by
  simp only [AttributeDef.schema, List.forall_mem_cons]
  refine ⟨?_, ?_, fun h => absurd rfl h, ?_, ?_, ?_, ?_, nofun⟩ <;> simp

/-- Each field of an operation other than number 4 `Keeps` its attributes, whatever it reads. -/
theorem OperationDef.keeps_attributes :
    ∀ field ∈ OperationDef.schema.fields, field.number ≠ 4 → field.Keeps (·.attributes) := by
  simp only [OperationDef.schema, List.forall_mem_cons]
  refine ⟨?_, ?_, ?_, fun h => absurd rfl h, ?_, ?_, ?_, ?_, ?_, ?_, ?_, ?_, ?_, nofun⟩ <;> simp

/-- Each field of a catalog other than number 1 `Keeps` its operations, for there are none. -/
theorem OperationList.keeps_operations :
    ∀ field ∈ OperationList.schema.fields, field.number ≠ 1 → field.Keeps (·.operations) := by
  simp only [OperationList.schema, List.forall_mem_cons]
  exact ⟨fun h => absurd rfl h, nofun⟩

/-- A default that holds nothing declared is read as `unset`, and not as no default: what counts is
that its record was there. -/
theorem AttributeDef.defaultValue_of_hollow {depth : Nat} {bytes : Bytes} {a : AttributeDef}
    (h : HollowDefault (depth + 1) bytes)
    (ha : AttributeDef.schema.merge? (depth + 1) {} bytes = some a) :
    a.defaultValue = some .unset := by
  obtain ⟨records, hrecords, hgiven, hhollow⟩ := h
  rw [Schema.merge?_of_wellFormed hrecords] at ha
  have hempty : ∀ value, ⟨3, .delimited value⟩ ∈ records →
      AttributeValue.schema.mergeNested? (depth + 1) .unset value = some .unset :=
    fun value hvalue => Schema.merge?_of_hollow (hhollow value hvalue) .unset
  exact Schema.message_of_foldlM rfl keeps_defaultValue (fun _ _ => rfl) ha hempty rfl
    (.inl hgiven)

/-- The signature of an attribute whose default is `unset` has a default, of unknown value. -/
theorem AttributeDef.signature_of_unset {a : AttributeDef} (h : a.defaultValue = some .unset) :
    a.signature.hasDefault = true ∧ a.signature.defaultValue = .nothing := by
  simp only [signature, h]
  exact ⟨rfl, rfl⟩

/-- An attribute whose bytes an operation `Holds` is read into one of the operation's attributes. -/
theorem OperationDef.exists_attribute {depth : Nat} {operation bytes : Bytes}
    {op : OperationDef} (hop : OperationDef.schema.merge? (depth + 1) {} operation = some op)
    (hattribute : Wire.Holds (depth + 1) operation 4 bytes) :
    ∃ a ∈ op.attributes, AttributeDef.schema.merge? depth {} bytes = some a := by
  obtain ⟨records, hrecords, hmem⟩ := hattribute
  rw [Schema.merge?_of_wellFormed hrecords] at hop
  exact (Schema.exists_mem_of_foldlM rfl {} keeps_attributes hop).2 bytes hmem

/-- An operation whose bytes a catalog `Holds` is read into one of the catalog's operations. -/
theorem exists_operation {content operation : Bytes} {operations : List OperationDef}
    (hcontent : binaryOperations content = .ok operations)
    (hoperation : Wire.Holds Schema.depthLimit content 1 operation) :
    ∃ op ∈ operations,
      OperationDef.schema.merge? (Schema.depthLimit - 1) {} operation = some op := by
  obtain ⟨records, hrecords, hmem⟩ := hoperation
  rw [binaryOperations, decode?, Schema.decode?, Schema.merge?_of_wellFormed hrecords] at hcontent
  cases hfold : records.foldlM (OperationList.schema.loadRecord Schema.depthLimit)
      OperationList.schema.empty with
  | none =>
    rw [hfold] at hcontent
    cases hcontent
  | some catalog =>
    rw [hfold] at hcontent
    cases hcontent
    exact (Schema.exists_mem_of_foldlM rfl {} OperationList.keeps_operations hfold).2 operation hmem

/-- An attribute with a default is among the optional ones of the `classification` exactly if no
input refers to it, whatever its default says. -/
theorem OperationDef.mem_optional_iff {op : OperationDef} {a : AttributeDef}
    (ha : a ∈ op.attributes) (hdefault : a.signature.hasDefault = true) :
    a.signature ∈ op.signature.classification.optional ↔
      ¬∃ input ∈ op.signature.inputs, input.RefersTo a.signature.name := by
  rw [Operation.mem_optional_iff, Operation.mem_inferredNames_iff]
  have hmem : a.signature ∈ op.signature.attributes := List.mem_map_of_mem ha
  simp only [hmem, hdefault, true_and, and_true]

/-! ### Both together -/

/-- Undeclared fields change nothing about the operations that `binaryOperations` reads, wherever
they stand. An attribute whose default holds nothing else still has one, of unknown value, and is
optional unless an input names it. -/
theorem binaryOperations_undeclared :
    (∀ content content' : Bytes, OperationList.Enlarges Schema.depthLimit content content' →
        binaryOperations content' = binaryOperations content) ∧
      ∀ (content operation bytes : Bytes) (operations : List OperationDef),
        binaryOperations content = .ok operations →
        Wire.Holds Schema.depthLimit content 1 operation →
        Wire.Holds (Schema.depthLimit - 1) operation 4 bytes →
        AttributeDef.HollowDefault (Schema.depthLimit - 2) bytes →
          ∃ op ∈ operations,
            OperationDef.schema.merge? (Schema.depthLimit - 1) {} operation = some op ∧
            ∃ a ∈ op.attributes,
              AttributeDef.schema.merge? (Schema.depthLimit - 2) {} bytes = some a ∧
              a.signature.hasDefault = true ∧ a.signature.defaultValue = .nothing ∧
              a.signature ∉ op.signature.classification.required ∧
              (a.signature ∈ op.signature.classification.optional ↔
                ¬∃ input ∈ op.signature.inputs, input.RefersTo a.signature.name) := by
  constructor
  · intro content content' h
    rw [binaryOperations, binaryOperations, decode?, decode?, Schema.decode?, Schema.decode?,
      OperationList.overlooks h]
  · intro content operation bytes operations hcontent hoperation hattribute hhollow
    obtain ⟨op, hop, hdecoded⟩ := exists_operation hcontent hoperation
    obtain ⟨a, ha, hbytes⟩ := OperationDef.exists_attribute hdecoded hattribute
    obtain ⟨hdefault, hvalue⟩ :=
      AttributeDef.signature_of_unset (AttributeDef.defaultValue_of_hollow hhollow hbytes)
    refine ⟨op, hop, hdecoded, a, ha, hbytes, hdefault, hvalue, fun hrequired => ?_,
      OperationDef.mem_optional_iff ha hdefault⟩
    -- A required attribute has no default, but this one has.
    have hnone := ((Operation.mem_required_iff a.signature).mp hrequired).2.2
    rw [hdefault] at hnone
    cases hnone

/-- An operation named `Op` that has one attribute with the given bytes. -/
def attributeOperation (bytes : Bytes) : Bytes :=
  Wire.delimitedRecord 1 (Utf8.encode "Op") ++ Wire.delimitedRecord 4 bytes

/-- A catalog whose only operation is the `attributeOperation` of the given bytes. -/
def attributeCatalog (bytes : Bytes) : Bytes := Wire.delimitedRecord 1 (attributeOperation bytes)

/-- The bytes of the attribute are shorter than the `attributeOperation` around them, so the length
limit holds for them too. -/
theorem length_of_attributeOperation {bytes : Bytes}
    (h : (attributeOperation bytes).length < Wire.lengthLimit) :
    bytes.length < Wire.lengthLimit := by
  rw [attributeOperation, List.length_append] at h
  exact Wire.length_lt_of_delimitedRecord (Nat.lt_of_le_of_lt (Nat.le_add_left _ _) h)

/-- The record with the name of the `attributeOperation`, which stands in front of the attribute. -/
theorem wellFormed_operationName (depth : Nat) :
    WellFormed depth [⟨1, .delimited (Utf8.encode "Op")⟩]
      (Wire.delimitedRecord 1 (Utf8.encode "Op")) :=
  Wire.wellFormed_delimitedRecord (by decide) (by decide)

/-- Enlarging the bytes of the attribute enlarges the `attributeCatalog` around it, two levels up.
-/
theorem attributeCatalog_enlarges {depth : Nat} {bytes bytes' : Bytes}
    (h : AttributeDef.Enlarges depth bytes bytes')
    (hlength : (attributeOperation bytes).length < Wire.lengthLimit)
    (hlength' : (attributeOperation bytes').length < Wire.lengthLimit) :
    OperationList.Enlarges (depth + 2) (attributeCatalog bytes) (attributeCatalog bytes') := by
  refine .delimitedRecord (by decide) hlength hlength' ⟨rfl, .keep (wellFormed_operationName _) ?_⟩
  exact .delimitedRecord (by decide) (length_of_attributeOperation hlength)
    (length_of_attributeOperation hlength') (.inr (.inl ⟨rfl, h⟩))

/-- An attribute named `f` with the given bytes as its default. -/
def attributeWith (value : Bytes) : Bytes :=
  Wire.delimitedRecord 1 (Utf8.encode "f") ++ Wire.delimitedRecord 3 value

/-- A function without a name as an attribute value, which is a field that `AttributeValue.schema`
does not declare. -/
def functionValue : Bytes := Wire.delimitedRecord 10 []

/-- The `functionValue` as the default changes nothing about the operations, for it is not declared.
But the record is a default, and the attribute is optional. -/
theorem binaryOperations_undeclared_function :
    OperationList.Enlarges Schema.depthLimit (attributeCatalog (attributeWith []))
        (attributeCatalog (attributeWith functionValue)) ∧
      binaryOperations (attributeCatalog (attributeWith functionValue)) =
        binaryOperations (attributeCatalog (attributeWith [])) ∧
      Wire.Holds Schema.depthLimit (attributeCatalog (attributeWith functionValue)) 1
        (attributeOperation (attributeWith functionValue)) ∧
      Wire.Holds (Schema.depthLimit - 1) (attributeOperation (attributeWith functionValue)) 4
        (attributeWith functionValue) ∧
      AttributeDef.HollowDefault (Schema.depthLimit - 2) (attributeWith functionValue) ∧
      ∃ op, binaryOperations (attributeCatalog (attributeWith functionValue)) = .ok [op] ∧
        ∃ a ∈ op.attributes, a.signature ∈ op.signature.classification.optional := by
  -- The attribute is well formed record by record: its name, and a default that holds the
  -- undeclared function alone.
  have hname : WellFormed (Schema.depthLimit - 2) [⟨1, .delimited (Utf8.encode "f")⟩]
      (Wire.delimitedRecord 1 (Utf8.encode "f")) :=
    Wire.wellFormed_delimitedRecord (by decide) (by decide)
  have hvalue : WellFormed (Schema.depthLimit - 2) [⟨3, .delimited functionValue⟩]
      (Wire.delimitedRecord 3 functionValue) :=
    Wire.wellFormed_delimitedRecord (by decide) (by decide)
  have hfunction : WellFormed (Schema.depthLimit - 3) [⟨10, .delimited []⟩] functionValue :=
    Wire.wellFormed_delimitedRecord (by decide) (by decide)
  have hundeclared : ∀ record ∈ [(⟨10, .delimited []⟩ : Record)],
      ¬AttributeValue.schema.Declares record.field := by decide
  have henlarges : OperationList.Enlarges Schema.depthLimit (attributeCatalog (attributeWith []))
      (attributeCatalog (attributeWith functionValue)) := by
    refine attributeCatalog_enlarges (.keep hname ?_) (by decide) (by decide)
    exact .delimitedRecord (by decide) (by decide) (by decide)
      ⟨.inl rfl, .append (.nil _) hfunction hundeclared⟩
  have hoperation : Wire.Holds Schema.depthLimit (attributeCatalog (attributeWith functionValue)) 1
      (attributeOperation (attributeWith functionValue)) :=
    ⟨_, Wire.wellFormed_delimitedRecord (by decide) (by decide), List.mem_singleton_self _⟩
  have hattribute : Wire.Holds (Schema.depthLimit - 1)
      (attributeOperation (attributeWith functionValue)) 4 (attributeWith functionValue) :=
    ⟨_, (wellFormed_operationName _).append
      (Wire.wellFormed_delimitedRecord (by decide) (by decide)), by simp⟩
  -- Nothing that the default holds is declared, so it is hollow.
  have hhollow : AttributeDef.HollowDefault (Schema.depthLimit - 2)
      (attributeWith functionValue) := by
    refine ⟨_, hname.append hvalue, ⟨functionValue, by simp⟩, fun value hmem => ?_⟩
    obtain rfl : value = functionValue := by simpa using hmem
    exact ⟨_, hfunction, hundeclared⟩
  have hoperations : binaryOperations (attributeCatalog (attributeWith functionValue)) =
      .ok [{ name := "Op", attributes := [{ name := "f", defaultValue := some .unset }] }] := by
    decide
  obtain ⟨op, hop, -, a, ha, -, -, -, -, hoptional⟩ :=
    binaryOperations_undeclared.2 _ _ _ _ hoperations hoperation hattribute hhollow
  obtain rfl := List.mem_singleton.mp hop
  have hinputs : ¬∃ input ∈ ([] : List Argument), input.RefersTo a.signature.name := by simp
  exact ⟨henlarges, binaryOperations_undeclared.1 _ _ henlarges, hoperation, hattribute, hhollow,
    _, hoperations, a, ha, hoptional.mpr hinputs⟩

/-- As many groups inside each other as the number says, with a field number that no message
declares. As a record of a catalog, they are `WellFormed` just down to a limit. -/
def nestedGroups : Nat → Bytes
  | 0 => []
  | n + 1 => Wire.tag 15 3 ++ (nestedGroups n ++ Wire.tag 15 4)

/-- The `nestedGroups` are well-formed records at a depth that allows for all of them. -/
theorem wellFormed_nestedGroups (n : Nat) :
    WellFormed (n + 1) [⟨15, .group⟩] (nestedGroups (n + 1)) := by
  have hgroup : ∀ {n records}, WellFormed n records (nestedGroups n) →
      WellFormed (n + 1) [⟨15, .group⟩] (nestedGroups (n + 1)) := by
    intro n records h
    have hopening : Wire.Tagged 15 3 (Wire.tag 15 3) := Wire.tagged_tag (by decide) (by decide)
    have hclosing : Wire.Tagged 15 4 (Wire.tag 15 4) := Wire.tagged_tag (by decide) (by decide)
    have hrecord := WellFormed.group hopening h hclosing (.nil (n + 1))
    rwa [List.append_nil] at hrecord
  induction n with
  | zero => exact hgroup (.nil 0)
  | succ n ih => exact hgroup ih

/-- One level more than `Schema.depthLimit` is too deep. Ninety-nine groups in an attribute, with a
number that it does not declare, make the catalog malformed. -/
theorem binaryOperations_nestedGroups :
    OperationList.Enlarges (Schema.depthLimit + 1)
        (attributeCatalog (Wire.delimitedRecord 1 (Utf8.encode "a")))
        (attributeCatalog (Wire.delimitedRecord 1 (Utf8.encode "a") ++ nestedGroups 99)) ∧
      binaryOperations (attributeCatalog (Wire.delimitedRecord 1 (Utf8.encode "a"))) =
        .ok [{ name := "Op", attributes := [{ name := "a" }] }] ∧
      binaryOperations (attributeCatalog
          (Wire.delimitedRecord 1 (Utf8.encode "a") ++ nestedGroups 99)) =
        .error .catalogMalformed := by
  have hundeclared : ∀ record ∈ [(⟨15, .group⟩ : Record)],
      ¬AttributeDef.schema.Declares record.field := by decide
  have hname : WellFormed (Schema.depthLimit - 1) [⟨1, .delimited (Utf8.encode "a")⟩]
      (Wire.delimitedRecord 1 (Utf8.encode "a")) :=
    Wire.wellFormed_delimitedRecord (by decide) (by decide)
  have hgrown : AttributeDef.Enlarges (Schema.depthLimit - 1)
      (Wire.delimitedRecord 1 (Utf8.encode "a"))
      (Wire.delimitedRecord 1 (Utf8.encode "a") ++ nestedGroups 99) :=
    .append hname (wellFormed_nestedGroups 98) hundeclared
  exact ⟨attributeCatalog_enlarges hgrown (by decide) (by decide +kernel), by decide,
    by decide +kernel⟩

end TypedOps.Catalog
