import TypedOps.Proofs.Emit.Fields
import TypedOps.Proofs.Emit.Uses

/-!
# `TypedOps.Proofs.Emit.Parameters`: signature, docstring and body agree

What a caller gives to a method is written down three times: the signature declares it, the
docstring has a field for it, and the body hands it to the runtime. Each walks over the inputs and
the attributes for itself. Read back from their texts, the three are one list.

* `Operation.signatureParams_eq_ok`: the declarations of a signature, in the open.
* `Use.Fits`: how the use of a variable goes with its declaration.
* `Operation.parameters_agree`: the three lists, one against the other, in the order of the
  signature.
-/

set_option autoImplicit false

namespace TypedOps

open Naming (parameter)
open Text

/-! ### The signature, declaration by declaration -/

/-- The annotation of a declared parameter, with its default if it has one: what stands behind the
colon in `declaration`. -/
def hintOf (declaration : Text) : Text :=
  ((cut ':' declaration).2.bind (afterStart? " ")).getD []

/-- The annotation `hintOf` a declaration is what stands behind the name and the colon, if the name
is an identifier. -/
theorem hintOf_append {name : Text} (h : IsIdentifier name) (hint : Text) :
    hintOf (name ++ ": " ++ hint) = hint := by
  have htext : name ++ ": " ++ hint = name ++ ':' :: (" " ++ hint) := List.append_assoc _ _ _
  rw [hintOf, htext, cut_append_cons (h.not_mem (by decide)), Option.bind_some,
    afterStart?_append]
  rfl

/-- What stands behind the annotation of a parameter that may be left out. It is how `hintOf` ends
for such a one. -/
def optionalMark : Text := " | None = None"

/-- How a use of a variable goes with the declaration of it: inputs are handed over as a list just
when `hintOf` gives a list, and a setter has a guard just when its parameter may be left out. -/
def Use.Fits (use : Use) (declaration : Text) : Prop :=
  declaredName declaration = use.name ∧
    match use with
    | .input _ many => many = true ↔ hintOf declaration = "list[Output]".toList
    | .setting _ _ guarded => guarded = true ↔ Text.endsWith (hintOf declaration) optionalMark

/-- The declaration of an input in the signature, with its `typeHint`. -/
def Argument.declaration (a : Argument) : Text := parameter a.name ++ ": " ++ a.typeHint

/-- The declaration of an attribute that has an annotation, with the `optionalMark` where it has a
default. -/
def Attribute.declaration (a : Attribute) : Text :=
  parameter a.name ++ ": " ++ ((TypeTag.typeHint? TypeTable.standard a.tag).getD [] ++
    if a.hasDefault then optionalMark else [])

/-- The `Use` of an input in the body fits its declaration: a list is taken as a list. -/
theorem fits_input {a : Argument} (h : IsIdentifier a.name) :
    (Use.input (parameter a.name) a.isList).Fits a.declaration := by
  have hname := Naming.isIdentifier_parameter h
  refine ⟨?_, ?_⟩
  · rw [Argument.declaration, List.append_assoc]
    exact declaredName_append hname _
  · show a.isList = true ↔ hintOf a.declaration = "list[Output]".toList
    rw [Argument.declaration, hintOf_append hname, Argument.typeHint]
    cases a.isList <;> decide

/-- The `Use` of an attribute in the body fits its declaration: it is set under a guard where it may
be left out. -/
theorem fits_setting {a : Attribute} (h : IsIdentifier a.name)
    (hfit : Operation.Annotated TypeTable.standard a) :
    (Use.setting a.name (parameter a.name) a.hasDefault).Fits a.declaration := by
  have hname := Naming.isIdentifier_parameter h
  refine ⟨?_, ?_⟩
  · rw [Attribute.declaration, List.append_assoc]
    exact declaredName_append hname _
  · show a.hasDefault = true ↔ Text.endsWith (hintOf a.declaration) optionalMark
    obtain ⟨e, -, hmapped⟩ := exists_element hfit
    rw [Attribute.declaration, hintOf_append hname, TypeTag.typeHint?, hmapped]
    -- Whatever the element is, and whether there is a list of them, the annotation itself does
    -- not end as an optional one does.
    generalize (TypeTag.split a.tag).2 = isList
    generalize a.hasDefault = isOptional
    cases e <;> cases isList <;> cases isOptional <;> decide

namespace Operation

/-- The `signatureParams` of an operation whose attributes have annotations: the declarations, in
the order of the signature. -/
theorem signatureParams_eq_ok {op : Operation}
    (h : ∀ a ∈ op.parameterAttributes, Annotated TypeTable.standard a) :
    op.signatureParams TypeTable.standard =
      .ok ("self".toList :: (op.inputs.map Argument.declaration ++
        op.parameterAttributes.map Attribute.declaration ++
          ["name: str | None = None".toList])) := by
  have hhint : ∀ a ∈ op.parameterAttributes, op.attributeHint TypeTable.standard a =
      .ok ((TypeTag.typeHint? TypeTable.standard a.tag).getD []) := by
    intro a ha
    obtain ⟨hint, hhint⟩ := exists_attributeHint_eq_ok op (h a ha)
    rw [attributeHint] at hhint ⊢
    cases htag : TypeTag.typeHint? TypeTable.standard a.tag with
    | none => simp [htag] at hhint
    | some t => rfl
  -- Required and optional parameters differ in the default that is written behind the annotation.
  have hrequired : (op.classification.required.mapM fun a => do
      return parameter a.name ++ ": " ++ (← op.attributeHint TypeTable.standard a)) =
        .ok (op.classification.required.map Attribute.declaration) := by
    refine mapM_eq_ok_of_forall fun a ha => ?_
    have hnone : a.hasDefault = false := by simpa using (List.mem_filter.mp ha).2
    rw [hhint a (List.mem_append_left _ ha), Attribute.declaration, hnone,
      if_neg Bool.false_ne_true, List.append_nil]
    rfl
  have hoptional : (op.classification.optional.mapM fun a => do
      return parameter a.name ++ ": " ++ (← op.attributeHint TypeTable.standard a) ++
        " | None = None") = .ok (op.classification.optional.map Attribute.declaration) := by
    refine mapM_eq_ok_of_forall fun a ha => ?_
    have hsome : a.hasDefault = true := (List.mem_filter.mp ha).2
    rw [hhint a (List.mem_append_right _ ha), Attribute.declaration, hsome, if_pos rfl,
      ← List.append_assoc]
    rfl
  simp only [signatureParams, bind_eq_ok_iff]
  refine ⟨_, hrequired, _, hoptional, ?_⟩
  show Except.ok (["self".toList] ++ op.inputs.map Argument.declaration ++
    op.classification.required.map Attribute.declaration ++
    op.classification.optional.map Attribute.declaration ++ ["name: str | None = None".toList]) = _
  rw [parameterAttributes, List.map_append]
  simp only [List.append_assoc, List.cons_append, List.nil_append]

/-- If there are `signatureParams`, all attributes in them have annotations. -/
theorem annotated_of_signatureParams {op : Operation} {params : List Text}
    (h : op.signatureParams TypeTable.standard = .ok params) :
    ∀ a ∈ op.parameterAttributes, Annotated TypeTable.standard a := by
  have hsignature := signatureParams_cases TypeTable.standard op
  refine (unfit?_eq_none_iff ..).mp ?_
  cases hunfit : unfit? TypeTable.standard op.parameterAttributes with
  | none => rfl
  | some a =>
    rw [hunfit] at hsignature
    cases h.symm.trans hsignature

/-! ### One list, three times -/

/-- How the parameters, the lines of the docstring and the statements of a method agree, the last as
`givenUses` and `namedBy` read them. -/
structure ParametersAgree (op : Operation) (params docLines : List Text) (body : List Line) :
    Prop where
  /-- Behind the graph the signature declares what the body uses, and last the name. -/
  declared : params.map declaredName =
    "self".toList :: ((givenUses body).map Use.name ++ namedBy body)
  /-- The docstring has fields for the same names in the same order. -/
  fields : heads docLines = (givenUses body).map Use.name ++ namedBy body
  /-- The inputs come first, then the required attributes, then the optional ones. -/
  uses : givenUses body = op.expectedUses
  /-- The operation is named once. -/
  named : namedBy body = ["name".toList]
  /-- Lists of inputs are annotated as lists, and guarded attributes may be left out. -/
  fits : List.Forall₂ Use.Fits (givenUses body) (params.tail.dropLast)
  /-- An attribute that an input names is no parameter, and it is never set. -/
  inferred : ∀ i ∈ op.inputs, ∀ key ∈ i.references,
    (∀ a ∈ op.parameterAttributes, a.name ≠ key) ∧
      ∀ name guarded, Use.setting key name guarded ∉ givenUses body

/-- Take an operation whose names are identifiers, and any documentation that brings no head of a
field into the text in front of the fields. Whenever `emit` writes its method under a registered
binding, what is written is made of a signature, a docstring and a body that name the same
parameters in the same order, and agree on which of them are lists, which may be left out and which
are inferred. -/
theorem parameters_agree {name : Text} {b : Binding} (hname : Binding.ofName? name = some b)
    (op : Operation) (doc : Documentation) (hnames : op.WellNamed) (hfree : HeadFree op doc)
    (w w' : Writer) (h : op.emit TypeTable.standard b doc w = .ok w') :
    ∃ params docLines body,
      w' = w.block (op.outputsClassBlock ++
        op.defLine params :: deeper (docstringBlock docLines ++ body)) ∧
      op.signatureParams TypeTable.standard = .ok params ∧ docstringLines op doc = .ok docLines ∧
      ParametersAgree op params docLines body := by
  have hb := Binding.ne_base_of_ofName? hname
  -- What was written was put together from pieces.
  rw [emit] at h
  split at h
  · cases h
  obtain ⟨block, hblock, rfl⟩ := (map_eq_ok_iff _ _ _).mp h
  obtain ⟨p, hp, rfl⟩ := (methodBlock_eq_ok_iff _ _ _ _ _).mp hblock
  obtain ⟨hparams, hdocLines, hsetters, hfinish⟩ := (pieces_eq_ok_iff _ _ _ _ _).mp hp
  -- The signature was written, so all attributes that it declares have annotations.
  have hfit := annotated_of_signatureParams hparams
  have hsetters := Except.ok.inj (hsetters.symm.trans (settersBlock_eq_ok hb hfit))
  have huses := (usedAs_body hnames hb hfit hsetters hfinish).givenUses_eq
  have hnamed := namedBy_body hnames hb hfit hsetters hfinish
  have hdeclared := map_declaredName_signatureParams hnames.inputs hnames.attributes hparams
  have hheads := heads_docstringLines hnames.inputs hnames.attributes hfree hdocLines
  have hparameter : ∀ a ∈ op.parameterAttributes, IsIdentifier a.name := fun a ha =>
    hnames.attributes a ((mem_parameterAttributes_iff op a).mp ha).1
  refine ⟨p.params, p.docLines, p.body op, ?_, hparams, hdocLines, ?_⟩
  · rw [Pieces.block, deeper_append]
  · exact {
      declared := by rw [huses, hnamed, map_name_expectedUses, hdeclared, List.cons_append]
      fields := by rw [huses, hnamed, map_name_expectedUses, hheads]
      uses := huses
      named := hnamed
      fits := by
        have hdeclarations := Except.ok.inj (hparams.symm.trans (signatureParams_eq_ok hfit))
        rw [huses, hdeclarations, List.tail_cons, List.dropLast_concat, expectedUses_eq]
        refine List.rel_append ?_ ?_
        · rw [List.forall₂_map_left_iff, List.forall₂_map_right_iff, List.forall₂_same]
          exact fun a ha => fits_input (hnames.inputs a ha)
        · rw [List.forall₂_map_left_iff, List.forall₂_map_right_iff, List.forall₂_same]
          exact fun a ha => fits_setting (hparameter a ha) (hfit a ha)
      inferred := by
        intro i hi key hkey
        have hmem : key ∈ op.classification.inferred :=
          List.mem_eraseDups.mpr (List.mem_flatMap.mpr ⟨i, hi, hkey⟩)
        have hother : ∀ a ∈ op.parameterAttributes, a.name ≠ key := by
          rintro a ha rfl
          exact ((mem_parameterAttributes_iff op a).mp ha).2 hmem
        refine ⟨hother, fun value guarded hset => ?_⟩
        rw [huses, expectedUses_eq] at hset
        simp only [List.mem_append, List.mem_map, Use.setting.injEq, reduceCtorEq, and_false,
          exists_false, false_or] at hset
        obtain ⟨a, ha, hkey, -⟩ := hset
        exact hother a ha hkey }

/-- An operation with parameters of every kind that `ParametersAgree` speaks of: a list of inputs,
an inferred attribute, a required and an optional one. -/
def stack : Operation where
  name := "Stack"
  inputs := [{ name := "values", typeAttr := "T", numberAttr := "N" }, { name := "in" }]
  outputs := [{ name := "output" }]
  attributes :=
    [{ name := "N", tag := "int" }, { name := "T", tag := "type" },
      { name := "axis", tag := "int", hasDefault := true, defaultValue := .int 0 },
      { name := "shape", tag := "list(int)" }]

/-- Documentation for the operation `Stack`, with a field of its own in the text of an input. -/
def stackDoc : Documentation where
  name := "Stack"
  summary := "Stacks values."
  inputs := [{ name := "values", description := "The values.\n:param ghost: None." }]

/-- The method of `Stack` declares, documents and uses the same parameters. -/
theorem parameters_agree_stack :
    ∃ w', stack.emit TypeTable.standard .typed stackDoc { level := 1 } = .ok w' ∧
      ∃ params docLines body,
        w' = Writer.block { level := 1 } (stack.outputsClassBlock ++
          stack.defLine params :: deeper (docstringBlock docLines ++ body)) ∧
        params.map declaredName = ["self".toList, "values".toList, "in_".toList, "shape".toList,
          "axis".toList, "name".toList] ∧
        heads docLines = (params.map declaredName).tail ∧
        givenUses body = [.input "values" true, .input "in_" false,
          .setting "shape" "shape" false, .setting "axis" "axis" true] := by
  obtain ⟨w', hw'⟩ : ∃ w', stack.emit TypeTable.standard .typed stackDoc { level := 1 } =
      .ok w' := ⟨_, rfl⟩
  obtain ⟨params, docLines, body, hblock, -, -, hagree⟩ :=
    parameters_agree (rfl : Binding.ofName? "typed" = some .typed) stack stackDoc
      ⟨by decide, by decide, by decide, by decide⟩ (by decide) _ w' hw'
  have huses : givenUses body = [.input "values" true, .input "in_" false,
      .setting "shape" "shape" false, .setting "axis" "axis" true] :=
    hagree.uses.trans (by decide)
  have hdeclared := hagree.declared
  rw [huses, hagree.named] at hdeclared
  refine ⟨w', hw', params, docLines, body, hblock, hdeclared, ?_, huses⟩
  rw [hagree.fields, hagree.declared, List.tail_cons]

/-- A deprecated operation. The text on its deprecation, which the catalog gives, has a line that
looks like a field. -/
def retired : Operation where
  name := "Retired"
  deprecationExplanation := "Gone.\n:param ghost: Left."

/-- No text of the documentation holds a `fieldMark`, but the explanation of the deprecation brings
in a head that the signature knows nothing of. -/
theorem heads_retired :
    let doc : Documentation := { name := "Retired" }
    retired.WellNamed ∧
      (∀ t ∈ [doc.summary, doc.description, doc.deprecationMessage], ¬fieldMark <:+: t) ∧
      (∃ w', retired.emit TypeTable.standard .graph doc {} = .ok w') ∧
      ∃ params docLines, retired.signatureParams TypeTable.standard = .ok params ∧
        docstringLines retired doc = .ok docLines ∧
        params.map declaredName = ["self".toList, "name".toList] ∧
        heads docLines = ["ghost".toList, "name".toList] := by
  refine ⟨⟨by decide, by decide, by decide, by decide⟩, by decide, ⟨_, rfl⟩, _, _, rfl, rfl,
    by decide, ?_⟩
  -- The note on the name is long: written out, it is not decoded again at each step.
  delta nameNote
  repeat rw [String.toList_ofList]
  decide +kernel

end Operation

end TypedOps
