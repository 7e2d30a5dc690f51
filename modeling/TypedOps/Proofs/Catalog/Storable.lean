import TypedOps.Catalog.Schema
import TypedOps.Proofs.Message.RoundTrip

/-!
# `TypedOps.Proofs.Catalog.Storable`: what catalog messages can hold

The structures of a catalog hold integers and floating-point numbers of any size. A message whose
numbers have room in their fields is storable, and storable messages are read back from their binary
form, type by type from the innermost (`decode?_encode`).
-/

set_option autoImplicit false

namespace TypedOps.Catalog

/-! ### Dimensions and shapes -/

/-- A `Dimension` can be stored if its size has sixty-four bits. -/
def Dimension.Storable (d : Dimension) : Prop := MachineInt.fits 64 d.size = true

/-- A storable dimension is read back from its records. The number behind `Storable` bounds how deep
messages are nested in it. -/
theorem Dimension.schema_roundTrips : schema.RoundTrips Storable 0 := by
  refine Schema.Numbered.roundTrips ⟨by decide, by decide⟩ fun {m depth} hm _ => ?_
  refine .cons (Field.carries_scalar {} Scalar.int64_roundTrips hm rfl) ?_
  refine .cons (Field.carries_scalar {} Scalar.text_roundTrips trivial rfl) ?_
  exact .nil m

/-- A `Shape` can be stored if all its dimensions can. -/
def Shape.Storable (s : Shape) : Prop := ∀ d ∈ s.dimensions, d.Storable

/-- A `Storable` shape is read back from its records, one record for each dimension. -/
theorem Shape.schema_roundTrips : schema.RoundTrips Storable 1 := by
  refine Schema.Numbered.roundTrips ⟨by decide, by decide⟩ fun {m depth} hm hdepth => ?_
  refine .cons (Field.carries_messages {} Dimension.schema_roundTrips hdepth hm rfl) ?_
  refine .cons (Field.carries_scalar {} Scalar.bool_roundTrips trivial rfl) ?_
  exact .nil m

/-! ### Attribute values -/

/-- A `ListValue` can be stored if its integers and types have room in their fields, its floats are
of single precision and its shapes can be stored. -/
structure ListValue.Storable (v : ListValue) : Prop where
  ints : ∀ i ∈ v.ints, MachineInt.fits 64 i = true
  floats : ∀ x ∈ v.floats, Floating.Format.single.Holds x
  types : ∀ number ∈ v.types, MachineInt.fits 32 number = true
  shapes : ∀ s ∈ v.shapes, s.Storable

/-- A `Storable` list value is read back from its records, whatever members have items. -/
theorem ListValue.schema_roundTrips : schema.RoundTrips Storable 2 := by
  refine Schema.Numbered.roundTrips ⟨by decide, by decide⟩ fun {m depth} hm hdepth => ?_
  refine .cons (Field.carries_scalars {} Scalar.bytes_roundTrips (fun _ _ => trivial) rfl) ?_
  refine .cons (Field.carries_scalars {} Scalar.int64_roundTrips hm.ints rfl) ?_
  refine .cons (Field.carries_scalars {} Scalar.float_roundTrips hm.floats rfl) ?_
  refine .cons (Field.carries_scalars {} Scalar.bool_roundTrips (fun _ _ => trivial) rfl) ?_
  refine .cons (Field.carries_scalars {} (Scalar.enumeration_roundTrips _) hm.types rfl) ?_
  refine .cons (Field.carries_messages {} Shape.schema_roundTrips hdepth hm.shapes rfl) ?_
  exact .nil m

/-- An `AttributeValue` can be stored if the member that is set has room in its field. -/
def AttributeValue.Storable : AttributeValue → Prop
  | .list items => items.Storable
  | .int i => MachineInt.fits 64 i = true
  | .float x => Floating.Format.single.Holds x
  | .type number => MachineInt.fits 32 number = true
  | .shape s => s.Storable
  | .unset | .string _ | .bool _ | .placeholder _ => True

/-- A `Storable` attribute value is read back from its records. Only the member that is set writes
one, also where its value is a default. -/
theorem AttributeValue.schema_roundTrips : schema.RoundTrips Storable 3 := by
  -- The members come in the order of the schema. Each writes a record exactly when it is the one
  -- set, so in every case all but one of them write nothing.
  refine Schema.Numbered.roundTrips ⟨by decide, by decide⟩ fun {m depth} hm hdepth => ?_
  refine .cons (Field.carries_choiceMessage ListValue.schema_roundTrips hdepth ?_) ?_
  · intro items h
    cases m <;> cases h
    exact ⟨hm, rfl⟩
  refine .cons (Field.carries_choiceScalar Scalar.bytes_roundTrips fun _ _ => trivial) ?_
  refine .cons (Field.carries_choiceScalar Scalar.int64_roundTrips ?_) ?_
  · intro i h
    cases m <;> cases h
    exact hm
  refine .cons (Field.carries_choiceScalar Scalar.float_roundTrips ?_) ?_
  · intro x h
    cases m <;> cases h
    exact hm
  refine .cons (Field.carries_choiceScalar Scalar.bool_roundTrips fun _ _ => trivial) ?_
  refine .cons (Field.carries_choiceScalar (Scalar.enumeration_roundTrips _) ?_) ?_
  · intro number h
    cases m <;> cases h
    exact hm
  refine .cons (Field.carries_choiceMessage Shape.schema_roundTrips (by omega) ?_) ?_
  · -- If the shape is set, nothing was carried over so far.
    intro s h
    cases m <;> cases h
    exact ⟨hm, rfl⟩
  refine .cons (Field.carries_choiceScalar Scalar.text_roundTrips fun _ _ => trivial) ?_
  cases m <;> exact .nil _

/-! ### Operations -/

/-- A `Deprecation` can be stored if its version has thirty-two bits. -/
def Deprecation.Storable (d : Deprecation) : Prop := MachineInt.fits 32 d.version = true

/-- A `Storable` deprecation is read back from its records, also one that is empty. -/
theorem Deprecation.schema_roundTrips : schema.RoundTrips Storable 0 := by
  refine Schema.Numbered.roundTrips ⟨by decide, by decide⟩ fun {m depth} hm _ => ?_
  refine .cons (Field.carries_scalar {} Scalar.int32_roundTrips hm rfl) ?_
  refine .cons (Field.carries_scalar {} Scalar.text_roundTrips trivial rfl) ?_
  exact .nil m

/-- An `ArgumentDef` can be stored if the number of its element type has thirty-two bits. -/
def ArgumentDef.Storable (a : ArgumentDef) : Prop := MachineInt.fits 32 a.type = true

/-- A `Storable` argument is read back from its records, which hold no further messages. -/
theorem ArgumentDef.schema_roundTrips : schema.RoundTrips Storable 0 := by
  refine Schema.Numbered.roundTrips ⟨by decide, by decide⟩ fun {m depth} hm _ => ?_
  refine .cons (Field.carries_scalar {} Scalar.text_roundTrips trivial rfl) ?_
  refine .cons (Field.carries_scalar {} Scalar.text_roundTrips trivial rfl) ?_
  refine .cons (Field.carries_scalar {} (Scalar.enumeration_roundTrips _) hm rfl) ?_
  refine .cons (Field.carries_scalar {} Scalar.text_roundTrips trivial rfl) ?_
  refine .cons (Field.carries_scalar {} Scalar.text_roundTrips trivial rfl) ?_
  refine .cons (Field.carries_scalar {} Scalar.text_roundTrips trivial rfl) ?_
  refine .cons (Field.carries_scalar {} Scalar.bool_roundTrips trivial rfl) ?_
  exact .nil m

/-- An `AttributeDef` can be stored if its default and allowed values can and its minimum has
sixty-four bits. -/
structure AttributeDef.Storable (a : AttributeDef) : Prop where
  defaultValue : ∀ v, a.defaultValue = some v → v.Storable
  minimum : MachineInt.fits 64 a.minimum = true
  allowedValues : ∀ v, a.allowedValues = some v → v.Storable

/-- A `Storable` attribute is read back from its records, and whether it has a default is read back
with it. -/
theorem AttributeDef.schema_roundTrips : schema.RoundTrips Storable 4 := by
  refine Schema.Numbered.roundTrips ⟨by decide, by decide⟩ fun {m depth} hm hdepth => ?_
  refine .cons (Field.carries_scalar {} Scalar.text_roundTrips trivial rfl) ?_
  refine .cons (Field.carries_scalar {} Scalar.text_roundTrips trivial rfl) ?_
  refine .cons (Field.carries_optional (fun m v => { m with defaultValue := v }) {}
    (fun _ _ => rfl) AttributeValue.schema_roundTrips hdepth hm.defaultValue rfl) ?_
  refine .cons (Field.carries_scalar {} Scalar.text_roundTrips trivial rfl) ?_
  refine .cons (Field.carries_scalar {} Scalar.bool_roundTrips trivial rfl) ?_
  refine .cons (Field.carries_scalar {} Scalar.int64_roundTrips hm.minimum rfl) ?_
  refine .cons (Field.carries_optional (fun m v => { m with allowedValues := v }) {}
    (fun _ _ => rfl) AttributeValue.schema_roundTrips hdepth hm.allowedValues rfl) ?_
  exact .nil m

/-- An `OperationDef` can be stored if its arguments, attributes and deprecation can. -/
structure OperationDef.Storable (op : OperationDef) : Prop where
  inputs : ∀ a ∈ op.inputs, a.Storable
  outputs : ∀ a ∈ op.outputs, a.Storable
  attributes : ∀ a ∈ op.attributes, a.Storable
  deprecation : ∀ d, op.deprecation = some d → d.Storable

/-- A `Storable` operation is read back from its records, with its arguments, attributes and
deprecation. -/
theorem OperationDef.schema_roundTrips : schema.RoundTrips Storable 5 := by
  -- The fields come in the order of the schema. An operation holds messages of every lower level,
  -- so the room below it has to do for the deepest of these.
  refine Schema.Numbered.roundTrips ⟨by decide, by decide⟩ fun {m depth} hm hdepth => ?_
  refine .cons (Field.carries_scalar {} Scalar.text_roundTrips trivial rfl) ?_
  refine .cons (Field.carries_messages {} ArgumentDef.schema_roundTrips (by omega) hm.inputs rfl) ?_
  refine .cons (Field.carries_messages {} ArgumentDef.schema_roundTrips (by omega) hm.outputs
    rfl) ?_
  refine .cons (Field.carries_messages {} AttributeDef.schema_roundTrips hdepth hm.attributes
    rfl) ?_
  refine .cons (Field.carries_scalar {} Scalar.text_roundTrips trivial rfl) ?_
  refine .cons (Field.carries_scalar {} Scalar.text_roundTrips trivial rfl) ?_
  refine .cons (Field.carries_optional (fun m v => { m with deprecation := v }) {}
    (fun _ _ => rfl) Deprecation.schema_roundTrips (by omega) hm.deprecation rfl) ?_
  refine .cons (Field.carries_scalar {} Scalar.bool_roundTrips trivial rfl) ?_
  refine .cons (Field.carries_scalar {} Scalar.bool_roundTrips trivial rfl) ?_
  refine .cons (Field.carries_scalar {} Scalar.bool_roundTrips trivial rfl) ?_
  refine .cons (Field.carries_scalar {} Scalar.bool_roundTrips trivial rfl) ?_
  refine .cons (Field.carries_scalars {} Scalar.text_roundTrips (fun _ _ => trivial) rfl) ?_
  refine .cons (Field.carries_scalar {} Scalar.bool_roundTrips trivial rfl) ?_
  exact .nil m

/-- An `OperationList`, which is a catalog, can be stored if all its operations can. -/
def OperationList.Storable (catalog : OperationList) : Prop :=
  ∀ op ∈ catalog.operations, op.Storable

/-- A `Storable` catalog is read back from its records. The six levels of messages stay far below
the `depthLimit` of the decoder. -/
theorem OperationList.schema_roundTrips : schema.RoundTrips Storable 6 := by
  refine Schema.Numbered.roundTrips ⟨by decide, by decide⟩ fun {m depth} hm hdepth => ?_
  refine .cons (Field.carries_messages {} OperationDef.schema_roundTrips hdepth hm rfl) ?_
  exact .nil m

/-- Operations that are storable are read back by `decode?` from what `encode` writes, if the
lengths in it have room in five bytes. -/
theorem decode?_encode {operations : List OperationDef} (h : ∀ op ∈ operations, op.Storable)
    (hlength : (encode operations).length < Wire.lengthLimit) :
    decode? (encode operations) = some operations := by
  have hmerges : OperationList.schema.Merges Schema.depthLimit (encode operations)
      OperationList.schema.empty ⟨operations⟩ :=
    OperationList.schema_roundTrips h (by decide) hlength
  rw [decode?, Schema.decode?, hmerges.merge?_eq_some, Option.map_some]

end TypedOps.Catalog
