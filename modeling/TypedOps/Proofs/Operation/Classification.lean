import Mathlib.Data.List.Perm.Basic
import TypedOps.Operation.Classification
import TypedOps.Proofs.Support.Lists

/-!
# `TypedOps.Proofs.Operation.Classification`: attributes dealt out in three parts

A classification deals out the attributes that an operation declares: those that an input
names, and of the others those without and those with a default. `Partitions` says what this
means and not how it is done. No attribute is lost or dealt out twice, and each part keeps the
order of the declaration.

The three sets of names never meet. Whether they are the declared names is another matter: an
input may name an attribute that the operation does not declare, and its name is inferred all the
same. That is the only way in which they can differ (`covers_iff`). Outputs play no part.
-/

set_option autoImplicit false

namespace TypedOps

/-- Whether an `Argument` refers to the attribute of a name. An empty reference is none. -/
def Argument.RefersTo (a : Argument) (name : Text) : Prop :=
  name ≠ [] ∧ (name = a.typeAttr ∨ name = a.typeListAttr ∨ name = a.numberAttr)

/-- The `references` of an argument are the names that it refers to. -/
theorem Argument.mem_references_iff (a : Argument) (name : Text) :
    name ∈ a.references ↔ a.RefersTo name := by
  simp [references, RefersTo, and_comm]

namespace Operation

variable {op : Operation}

/-- Whether an `Operation` declares an attribute of a name. -/
def Declares (op : Operation) (name : Text) : Prop := name ∈ op.attributes.map (·.name)

/-- A `Classification` that deals out the attributes of an operation. -/
structure Partitions (op : Operation) (c : Classification) : Prop where
  /-- Inferred are the names that inputs refer to. -/
  inferred_iff : ∀ name, name ∈ c.inferred ↔ ∃ a ∈ op.inputs, a.RefersTo name
  /-- Each inferred name is there once, though several inputs may refer to it. -/
  inferred_nodup : c.inferred.Nodup
  /-- The three parts together are the attributes declared, none lost and none twice. -/
  dealt : (op.attributes.filter (fun a => c.inferred.contains a.name) ++
    (c.required ++ c.optional)).Perm op.attributes
  /-- Each attribute is in exactly one part. -/
  one : ∀ a ∈ op.attributes,
    a.name ∈ c.inferred ∧ a ∉ c.required ∧ a ∉ c.optional ∨
      a.name ∉ c.inferred ∧ a ∈ c.required ∧ a ∉ c.optional ∨
        a.name ∉ c.inferred ∧ a ∉ c.required ∧ a ∈ c.optional
  /-- Required attributes stand in the order of the declaration. -/
  required_sublist : c.required.Sublist op.attributes
  /-- Optional attributes stand in the order of the declaration, too. -/
  optional_sublist : c.optional.Sublist op.attributes
  /-- Required are those that are not inferred and have no default. -/
  mem_required_iff : ∀ a, a ∈ c.required ↔
    a ∈ op.attributes ∧ a.name ∉ c.inferred ∧ a.hasDefault = false
  /-- Optional are those that are not inferred and have one. -/
  mem_optional_iff : ∀ a, a ∈ c.optional ↔
    a ∈ op.attributes ∧ a.name ∉ c.inferred ∧ a.hasDefault = true
  /-- No inferred name is that of a required attribute. -/
  inferred_required : c.inferred.Disjoint (c.required.map (·.name))
  /-- No inferred name is that of an optional attribute. -/
  inferred_optional : c.inferred.Disjoint (c.optional.map (·.name))
  /-- No required and optional attribute share a name. -/
  required_optional : (c.required.map (·.name)).Disjoint (c.optional.map (·.name))
  /-- The three sets of names are the declared names just when inputs refer to declared
  attributes only. -/
  covers_iff : (∀ name, (name ∈ c.inferred ∨ name ∈ c.required.map (·.name) ∨
      name ∈ c.optional.map (·.name)) ↔ op.Declares name) ↔
    ∀ a ∈ op.inputs, ∀ name, a.RefersTo name → op.Declares name
  /-- An attribute that no input refers to is left to the caller, whatever outputs refer to. -/
  given : ∀ a ∈ op.attributes, (∀ i ∈ op.inputs, ¬i.RefersTo a.name) →
    a ∈ c.required ∨ a ∈ c.optional

/-- The `inferredNames` are those that inputs refer to, declared or not. -/
theorem mem_inferredNames_iff (op : Operation) (name : Text) :
    name ∈ op.inferredNames ↔ ∃ a ∈ op.inputs, a.RefersTo name := by
  simp only [inferredNames, List.mem_eraseDups, List.mem_flatMap, Argument.mem_references_iff]

/-- A `classification` keeps the inferred names as they are. -/
theorem classification_inferred (op : Operation) :
    op.classification.inferred = op.inferredNames := rfl

/-- The `givenAttributes`, which a caller gives, are those that are not inferred. -/
theorem mem_givenAttributes_iff (a : Attribute) :
    a ∈ op.givenAttributes ↔ a ∈ op.attributes ∧ a.name ∉ op.inferredNames := by
  simp [givenAttributes]

/-- The `required` attributes are the given ones without a default. -/
theorem mem_required_iff (a : Attribute) :
    a ∈ op.classification.required ↔
      a ∈ op.attributes ∧ a.name ∉ op.inferredNames ∧ a.hasDefault = false := by
  rw [classification, List.mem_filter, mem_givenAttributes_iff, and_assoc, Bool.not_eq_true']

/-- The `optional` attributes are the given ones with a default. -/
theorem mem_optional_iff (a : Attribute) :
    a ∈ op.classification.optional ↔
      a ∈ op.attributes ∧ a.name ∉ op.inferredNames ∧ a.hasDefault = true := by
  rw [classification, List.mem_filter, mem_givenAttributes_iff, and_assoc]

/-- The names of attributes that are not inferred meet none of the `inferredNames`. -/
theorem disjoint_inferredNames {as : List Attribute} (h : ∀ a ∈ as, a.name ∉ op.inferredNames) :
    op.inferredNames.Disjoint (as.map (·.name)) := by
  intro name hinferred hname
  obtain ⟨a, ha, rfl⟩ := List.mem_map.mp hname
  exact h a ha hinferred

/-- Where names are distinct, one of the `required` and one of the `optional` attributes have
different names. -/
theorem disjoint_required_optional (hnames : (op.attributes.map (·.name)).Nodup) :
    (op.classification.required.map (·.name)).Disjoint
      (op.classification.optional.map (·.name)) := by
  intro name hrequired hoptional
  obtain ⟨a, ha, rfl⟩ := List.mem_map.mp hrequired
  obtain ⟨b, hb, hname⟩ := List.mem_map.mp hoptional
  obtain ⟨ha, -, hdefault⟩ := (mem_required_iff a).mp ha
  obtain ⟨hb, -, hdefault'⟩ := (mem_optional_iff b).mp hb
  -- The name has one attribute, which cannot both have a default and have none.
  have hsame : b = a := List.inj_on_of_nodup_map hnames hb ha hname
  rw [hsame, hdefault] at hdefault'
  cases hdefault'

/-- The inferred, `required` and `optional` attributes together are all attributes: none is lost or
dealt out twice. -/
theorem dealt_perm (op : Operation) :
    (op.attributes.filter (fun a => op.inferredNames.contains a.name) ++
      (op.classification.required ++ op.classification.optional)).Perm op.attributes := by
  have hgiven : (op.classification.required ++ op.classification.optional).Perm
      op.givenAttributes :=
    List.perm_append_comm.trans (List.filter_append_perm Attribute.hasDefault op.givenAttributes)
  exact (hgiven.append_left _).trans (List.filter_append_perm _ op.attributes)

/-- The three sets of names in a `classification` hold every declared name, and no other just when
inputs refer to declared attributes only. -/
theorem covers_iff (op : Operation) :
    (∀ name, (name ∈ op.inferredNames ∨ name ∈ op.classification.required.map (·.name) ∨
        name ∈ op.classification.optional.map (·.name)) ↔ op.Declares name) ↔
      ∀ a ∈ op.inputs, ∀ name, a.RefersTo name → op.Declares name := by
  constructor
  · intro h a ha name hrefers
    exact (h name).mp (.inl ((mem_inferredNames_iff op name).mpr ⟨a, ha, hrefers⟩))
  -- A declared name is inferred, or it is required or optional by whether it has a default.
  · intro h name
    constructor
    · rintro (hinferred | hrequired | hoptional)
      · obtain ⟨a, ha, hrefers⟩ := (mem_inferredNames_iff op name).mp hinferred
        exact h a ha name hrefers
      · obtain ⟨a, ha, rfl⟩ := List.mem_map.mp hrequired
        exact List.mem_map_of_mem ((mem_required_iff a).mp ha).1
      · obtain ⟨a, ha, rfl⟩ := List.mem_map.mp hoptional
        exact List.mem_map_of_mem ((mem_optional_iff a).mp ha).1
    · intro hdeclared
      obtain ⟨a, ha, rfl⟩ := List.mem_map.mp hdeclared
      by_cases hinferred : a.name ∈ op.inferredNames
      · exact .inl hinferred
      · cases hdefault : a.hasDefault with
        | false =>
          have hrequired := (mem_required_iff a).mpr ⟨ha, hinferred, hdefault⟩
          exact .inr (.inl (List.mem_map_of_mem hrequired))
        | true =>
          have hoptional := (mem_optional_iff a).mpr ⟨ha, hinferred, hdefault⟩
          exact .inr (.inr (List.mem_map_of_mem hoptional))

/-- The `classification` of an operation with distinct attribute names deals them out. -/
theorem classification_partitions (op : Operation) (hnames : (op.attributes.map (·.name)).Nodup) :
    op.Partitions op.classification where
  inferred_iff := mem_inferredNames_iff op
  inferred_nodup := nodup_eraseDups _
  dealt := dealt_perm op
  one := by
    intro a ha
    rw [mem_required_iff, mem_optional_iff, classification_inferred]
    -- What an attribute is depends on two tests only, so all four cases are gone through.
    by_cases hinferred : a.name ∈ op.inferredNames <;> cases hdefault : a.hasDefault <;>
      simp [ha, hinferred]
  required_sublist := List.filter_sublist.trans List.filter_sublist
  optional_sublist := List.filter_sublist.trans List.filter_sublist
  mem_required_iff := mem_required_iff
  mem_optional_iff := mem_optional_iff
  inferred_required := disjoint_inferredNames fun a ha => ((mem_required_iff a).mp ha).2.1
  inferred_optional := disjoint_inferredNames fun a ha => ((mem_optional_iff a).mp ha).2.1
  required_optional := disjoint_required_optional hnames
  covers_iff := covers_iff op
  given := by
    intro a ha hinputs
    -- No input refers to the attribute, so it is given by the caller.
    have hfree : a.name ∉ op.inferredNames := by
      intro hinferred
      obtain ⟨i, hi, hrefers⟩ := (mem_inferredNames_iff op a.name).mp hinferred
      exact hinputs i hi hrefers
    rw [mem_required_iff, mem_optional_iff]
    cases hdefault : a.hasDefault <;> simp [ha, hfree]

/-! ### A sample -/

/-- An operation with attributes of every kind: two that its input names, one that only its output
names, one with a default, and the name `K` that an input uses but nothing declares. -/
def stackSample : Operation where
  name := "Stack"
  inputs := [{ name := "values", typeAttr := "T", numberAttr := "N" },
    { name := "keys", typeListAttr := "K" }]
  outputs := [{ name := "parts", numberAttr := "num" }]
  attributes := [{ name := "N", tag := "int" }, { name := "num", tag := "int" },
    { name := "T", tag := "type", hasDefault := true },
    { name := "axis", tag := "int", hasDefault := true }]

/-- The attributes of `stackSample` dealt out. Its input `keys` refers to nothing declared, so the
three sets of names are not the declared ones. -/
theorem classification_partitions_stack :
    (stackSample.attributes.map (·.name)).Nodup ∧
      stackSample.Partitions stackSample.classification ∧
      stackSample.classification.inferred = ["T".toList, "N".toList, "K".toList] ∧
      stackSample.classification.required.map (·.name) = ["num".toList] ∧
      stackSample.classification.optional.map (·.name) = ["axis".toList] ∧
      ¬stackSample.Declares "K" := by
  have hnames : (stackSample.attributes.map (·.name)).Nodup := by decide
  refine ⟨hnames, classification_partitions stackSample hnames, ?_, ?_, ?_, ?_⟩
  · decide
  · decide
  · decide
  · simp [Declares, stackSample]

end Operation

end TypedOps
