import TypedOps.Proofs.Catalog.Storable
import TypedOps.Proofs.Message.Kept

/-!
# `TypedOps.Proofs.Catalog.Kept`: a catalog that was read is storable

The structures of a catalog could hold any numbers, but a message that was read holds only such as
have room in their fields. Type by type from the innermost, `Storable` is a property of the empty
message and is kept by every field (`Schema.Preserves`), and so:

* `storable_of_decode?`: a catalog in binary form is storable.
* `storable_of_ofText`: so is a catalog in text form.
* `decode?_encode_of_ofText`: a catalog in text form is the same once it has been stored in binary
  form and read back.
-/

set_option autoImplicit false

namespace TypedOps.Catalog

open TypedOps.Field (preserves_scalar preserves_scalars preserves_message preserves_messages
  preserves_choiceScalar preserves_choiceMessage)

/-! ### Shapes and attribute values -/

/-- The fields of a dimension keep it `Storable`: a size that is read has sixty-four bits. -/
theorem Dimension.schema_preserves : schema.Preserves Storable where
  empty := show MachineInt.fits 64 0 = true by decide
  fields := by
    refine List.forall_mem_cons.mpr ⟨preserves_scalar Scalar.int64_yields fun _ _ _ hv => hv, ?_⟩
    refine List.forall_mem_cons.mpr ⟨preserves_scalar (Scalar.yields_true _) fun _ _ hm _ => hm, ?_⟩
    exact List.forall_mem_nil _

/-- The fields of a shape keep it `Storable`, whatever dimensions are put behind those it has. -/
theorem Shape.schema_preserves : schema.Preserves Storable where
  empty := List.forall_mem_nil _
  fields := by
    refine List.forall_mem_cons.mpr ⟨preserves_messages Dimension.schema_preserves ?_, ?_⟩
    · exact fun _ _ hm hd => List.forall_mem_append.mpr ⟨hm, List.forall_mem_singleton.mpr hd⟩
    refine List.forall_mem_cons.mpr ⟨preserves_scalar (Scalar.yields_true _) fun _ _ hm _ => hm, ?_⟩
    exact List.forall_mem_nil _

/-- The fields of a list value keep it `Storable`, whatever items of any kind are put behind those
it has. -/
theorem ListValue.schema_preserves : schema.Preserves Storable where
  empty := ⟨List.forall_mem_nil _, List.forall_mem_nil _, List.forall_mem_nil _,
    List.forall_mem_nil _⟩
  fields := by
    -- The fields come in the order of the schema. Those of strings and truth values touch nothing
    -- that `Storable` speaks of; each of the others puts its items behind a list that was fine
    -- before.
    refine List.forall_mem_cons.mpr ⟨preserves_scalars (Scalar.yields_true _) ?_, ?_⟩
    · exact fun _ _ hm _ => ⟨hm.ints, hm.floats, hm.types, hm.shapes⟩
    refine List.forall_mem_cons.mpr ⟨preserves_scalars Scalar.int64_yields ?_, ?_⟩
    · exact fun _ _ hm hvs =>
        ⟨List.forall_mem_append.mpr ⟨hm.ints, hvs⟩, hm.floats, hm.types, hm.shapes⟩
    refine List.forall_mem_cons.mpr ⟨preserves_scalars Scalar.float_yields ?_, ?_⟩
    · exact fun _ _ hm hvs =>
        ⟨hm.ints, List.forall_mem_append.mpr ⟨hm.floats, hvs⟩, hm.types, hm.shapes⟩
    refine List.forall_mem_cons.mpr ⟨preserves_scalars (Scalar.yields_true _) ?_, ?_⟩
    · exact fun _ _ hm _ => ⟨hm.ints, hm.floats, hm.types, hm.shapes⟩
    refine List.forall_mem_cons.mpr ⟨preserves_scalars (Scalar.enumeration_yields _) ?_, ?_⟩
    · exact fun _ _ hm hvs =>
        ⟨hm.ints, hm.floats, List.forall_mem_append.mpr ⟨hm.types, hvs⟩, hm.shapes⟩
    refine List.forall_mem_cons.mpr ⟨preserves_messages Shape.schema_preserves ?_, ?_⟩
    · exact fun _ _ hm hs => ⟨hm.ints, hm.floats, hm.types,
        List.forall_mem_append.mpr ⟨hm.shapes, List.forall_mem_singleton.mpr hs⟩⟩
    exact List.forall_mem_nil _

/-- The fields of an attribute value keep it `Storable` whichever member they set, since that member
is all there is. -/
theorem AttributeValue.schema_preserves : schema.Preserves Storable where
  empty := trivial
  fields := by
    -- Setting a member drops what was there. Only a nested message starts from what it may find,
    -- which is of its own kind or the empty one.
    refine List.forall_mem_cons.mpr ⟨preserves_choiceMessage ListValue.schema_preserves ?_ ?_, ?_⟩
    · intro m items hm hitems
      cases m <;> cases hitems
      exact hm
    · exact fun _ _ _ hitems => hitems
    refine List.forall_mem_cons.mpr
      ⟨preserves_choiceScalar (Scalar.yields_true _) fun _ _ _ _ => trivial, ?_⟩
    refine List.forall_mem_cons.mpr
      ⟨preserves_choiceScalar Scalar.int64_yields fun _ _ _ hi => hi, ?_⟩
    refine List.forall_mem_cons.mpr
      ⟨preserves_choiceScalar Scalar.float_yields fun _ _ _ hx => hx, ?_⟩
    refine List.forall_mem_cons.mpr
      ⟨preserves_choiceScalar (Scalar.yields_true _) fun _ _ _ _ => trivial, ?_⟩
    refine List.forall_mem_cons.mpr
      ⟨preserves_choiceScalar (Scalar.enumeration_yields _) fun _ _ _ hnumber => hnumber, ?_⟩
    refine List.forall_mem_cons.mpr ⟨preserves_choiceMessage Shape.schema_preserves ?_ ?_, ?_⟩
    · intro m s hm hs
      cases m <;> cases hs
      exact hm
    · exact fun _ _ _ hs => hs
    refine List.forall_mem_cons.mpr
      ⟨preserves_choiceScalar (Scalar.yields_true _) fun _ _ _ _ => trivial, ?_⟩
    exact List.forall_mem_nil _

/-! ### Operations -/

/-- The fields of a deprecation keep it `Storable`: a version that is read has thirty-two bits. -/
theorem Deprecation.schema_preserves : schema.Preserves Storable where
  empty := show MachineInt.fits 32 0 = true by decide
  fields := by
    refine List.forall_mem_cons.mpr ⟨preserves_scalar Scalar.int32_yields fun _ _ _ hv => hv, ?_⟩
    refine List.forall_mem_cons.mpr ⟨preserves_scalar (Scalar.yields_true _) fun _ _ hm _ => hm, ?_⟩
    exact List.forall_mem_nil _

/-- The fields of an argument keep it `Storable`: an element type that is read has thirty-two bits.
-/
theorem ArgumentDef.schema_preserves : schema.Preserves Storable where
  empty := show MachineInt.fits 32 0 = true by decide
  fields := by
    refine List.forall_mem_cons.mpr ⟨preserves_scalar (Scalar.yields_true _) fun _ _ hm _ => hm, ?_⟩
    refine List.forall_mem_cons.mpr ⟨preserves_scalar (Scalar.yields_true _) fun _ _ hm _ => hm, ?_⟩
    refine List.forall_mem_cons.mpr
      ⟨preserves_scalar (Scalar.enumeration_yields _) fun _ _ _ hnumber => hnumber, ?_⟩
    refine List.forall_mem_cons.mpr ⟨preserves_scalar (Scalar.yields_true _) fun _ _ hm _ => hm, ?_⟩
    refine List.forall_mem_cons.mpr ⟨preserves_scalar (Scalar.yields_true _) fun _ _ hm _ => hm, ?_⟩
    refine List.forall_mem_cons.mpr ⟨preserves_scalar (Scalar.yields_true _) fun _ _ hm _ => hm, ?_⟩
    refine List.forall_mem_cons.mpr ⟨preserves_scalar (Scalar.yields_true _) fun _ _ hm _ => hm, ?_⟩
    exact List.forall_mem_nil _

/-- The fields of an attribute keep it `Storable`, whatever value is set as its default or as its
allowed values. -/
theorem AttributeDef.schema_preserves : schema.Preserves Storable where
  empty := by
    refine ⟨fun v h => ?_, show MachineInt.fits 64 0 = true by decide, fun v h => ?_⟩ <;> cases h
  fields := by
    -- Five of the fields leave the three parts that `Storable` speaks of as they are.
    have hother : ∀ {m : AttributeDef}, m.Storable → ∀ {m' : AttributeDef},
        m'.defaultValue = m.defaultValue → m'.minimum = m.minimum →
        m'.allowedValues = m.allowedValues → m'.Storable := fun hm _ hdefault hminimum hallowed =>
      ⟨hdefault ▸ hm.defaultValue, hminimum ▸ hm.minimum, hallowed ▸ hm.allowedValues⟩
    refine List.forall_mem_cons.mpr
      ⟨preserves_scalar (Scalar.yields_true _) fun _ _ hm _ => hother hm rfl rfl rfl, ?_⟩
    refine List.forall_mem_cons.mpr
      ⟨preserves_scalar (Scalar.yields_true _) fun _ _ hm _ => hother hm rfl rfl rfl, ?_⟩
    refine List.forall_mem_cons.mpr ⟨preserves_message AttributeValue.schema_preserves
      (fun _ v hm hv => hm.defaultValue v hv) ?_, ?_⟩
    · exact fun _ _ hm hv => ⟨fun _ h => Option.some_inj.mp h ▸ hv, hm.minimum, hm.allowedValues⟩
    refine List.forall_mem_cons.mpr
      ⟨preserves_scalar (Scalar.yields_true _) fun _ _ hm _ => hother hm rfl rfl rfl, ?_⟩
    refine List.forall_mem_cons.mpr
      ⟨preserves_scalar (Scalar.yields_true _) fun _ _ hm _ => hother hm rfl rfl rfl, ?_⟩
    refine List.forall_mem_cons.mpr ⟨preserves_scalar Scalar.int64_yields ?_, ?_⟩
    · exact fun _ _ hm hi => ⟨hm.defaultValue, hi, hm.allowedValues⟩
    refine List.forall_mem_cons.mpr ⟨preserves_message AttributeValue.schema_preserves
      (fun _ v hm hv => hm.allowedValues v hv) ?_, ?_⟩
    · exact fun _ _ hm hv => ⟨hm.defaultValue, hm.minimum, fun _ h => Option.some_inj.mp h ▸ hv⟩
    exact List.forall_mem_nil _

/-- The fields of an operation keep it `Storable`, whatever parts are put behind those it has. -/
theorem OperationDef.schema_preserves : schema.Preserves Storable where
  empty := by
    refine ⟨List.forall_mem_nil _, List.forall_mem_nil _, List.forall_mem_nil _, fun d h => ?_⟩
    cases h
  fields := by
    have hother : ∀ {m : OperationDef}, m.Storable → ∀ {m' : OperationDef},
        m'.inputs = m.inputs → m'.outputs = m.outputs → m'.attributes = m.attributes →
        m'.deprecation = m.deprecation → m'.Storable :=
      fun hm _ hinputs houtputs hattributes hdeprecation =>
        ⟨hinputs ▸ hm.inputs, houtputs ▸ hm.outputs, hattributes ▸ hm.attributes,
          hdeprecation ▸ hm.deprecation⟩
    -- All scalars but the version, which is a field of `Deprecation`, leave these four parts.
    have hscalar : ∀ {α : Type} (number : Nat) (name : Text) (kind : Scalar α)
        (get : OperationDef → α) (set : OperationDef → α → OperationDef),
        (∀ m v, (set m v).inputs = m.inputs ∧ (set m v).outputs = m.outputs ∧
          (set m v).attributes = m.attributes ∧ (set m v).deprecation = m.deprecation) →
        (Field.scalar number name kind get set).Preserves Storable :=
      fun number name kind get set hset => preserves_scalar (Scalar.yields_true _) fun m v hm _ =>
        hother hm (hset m v).1 (hset m v).2.1 (hset m v).2.2.1 (hset m v).2.2.2
    refine List.forall_mem_cons.mpr ⟨hscalar _ _ _ _ _ fun _ _ => ⟨rfl, rfl, rfl, rfl⟩, ?_⟩
    refine List.forall_mem_cons.mpr ⟨preserves_messages ArgumentDef.schema_preserves ?_, ?_⟩
    · exact fun _ _ hm ha => ⟨List.forall_mem_append.mpr ⟨hm.inputs,
        List.forall_mem_singleton.mpr ha⟩, hm.outputs, hm.attributes, hm.deprecation⟩
    refine List.forall_mem_cons.mpr ⟨preserves_messages ArgumentDef.schema_preserves ?_, ?_⟩
    · exact fun _ _ hm ha => ⟨hm.inputs, List.forall_mem_append.mpr ⟨hm.outputs,
        List.forall_mem_singleton.mpr ha⟩, hm.attributes, hm.deprecation⟩
    refine List.forall_mem_cons.mpr ⟨preserves_messages AttributeDef.schema_preserves ?_, ?_⟩
    · exact fun _ _ hm ha => ⟨hm.inputs, hm.outputs, List.forall_mem_append.mpr ⟨hm.attributes,
        List.forall_mem_singleton.mpr ha⟩, hm.deprecation⟩
    refine List.forall_mem_cons.mpr ⟨hscalar _ _ _ _ _ fun _ _ => ⟨rfl, rfl, rfl, rfl⟩, ?_⟩
    refine List.forall_mem_cons.mpr ⟨hscalar _ _ _ _ _ fun _ _ => ⟨rfl, rfl, rfl, rfl⟩, ?_⟩
    refine List.forall_mem_cons.mpr ⟨preserves_message Deprecation.schema_preserves
      (fun _ d hm hd => hm.deprecation d hd) ?_, ?_⟩
    · exact fun _ _ hm hd => ⟨hm.inputs, hm.outputs, hm.attributes,
        fun _ h => Option.some_inj.mp h ▸ hd⟩
    refine List.forall_mem_cons.mpr ⟨hscalar _ _ _ _ _ fun _ _ => ⟨rfl, rfl, rfl, rfl⟩, ?_⟩
    refine List.forall_mem_cons.mpr ⟨hscalar _ _ _ _ _ fun _ _ => ⟨rfl, rfl, rfl, rfl⟩, ?_⟩
    refine List.forall_mem_cons.mpr ⟨hscalar _ _ _ _ _ fun _ _ => ⟨rfl, rfl, rfl, rfl⟩, ?_⟩
    refine List.forall_mem_cons.mpr ⟨hscalar _ _ _ _ _ fun _ _ => ⟨rfl, rfl, rfl, rfl⟩, ?_⟩
    refine List.forall_mem_cons.mpr ⟨preserves_scalars (Scalar.yields_true _) ?_, ?_⟩
    · exact fun _ _ hm _ => hother hm rfl rfl rfl rfl
    refine List.forall_mem_cons.mpr ⟨hscalar _ _ _ _ _ fun _ _ => ⟨rfl, rfl, rfl, rfl⟩, ?_⟩
    exact List.forall_mem_nil _

/-- The fields of a catalog keep it `Storable`, whatever operations are put behind those it has. -/
theorem OperationList.schema_preserves : schema.Preserves Storable where
  empty := List.forall_mem_nil _
  fields := List.forall_mem_singleton.mpr <| preserves_messages OperationDef.schema_preserves
    fun _ _ hm hop => List.forall_mem_append.mpr ⟨hm, List.forall_mem_singleton.mpr hop⟩

/-! ### Catalogs -/

/-- The operations that `decode?` reads from a catalog in binary form are storable. -/
theorem storable_of_decode? {content : Bytes} {operations : List OperationDef}
    (h : decode? content = some operations) : ∀ op ∈ operations, op.Storable := by
  obtain ⟨catalog, hcatalog, rfl⟩ := Option.map_eq_some_iff.mp h
  exact OperationList.schema_preserves.of_decode? hcatalog

/-- The operations that `ofText` reads from a catalog in text form are storable, since its fields
end in the same schemas. -/
theorem storable_of_ofText {t : Text} {operations : List OperationDef}
    (h : ofText t = .ok operations) : ∀ op ∈ operations, op.Storable := by
  obtain ⟨catalog, hcatalog, rfl⟩ := (map_eq_ok_iff ..).mp h
  exact OperationList.schema_preserves.of_ofText hcatalog

/-- A catalog in text form comes back from its binary form, if that is no longer than
`Wire.lengthLimit` allows. -/
theorem decode?_encode_of_ofText {t : Text} {operations : List OperationDef}
    (h : ofText t = .ok operations) (hlength : (encode operations).length < Wire.lengthLimit) :
    decode? (encode operations) = some operations :=
  decode?_encode (storable_of_ofText h) hlength

end TypedOps.Catalog
