import TypedOps.Proofs.Emit.Method
import TypedOps.Proofs.Operation.Surface
import TypedOps.Proofs.Support.Except

/-!
# `TypedOps.Proofs.Emit.Unmapped`: the filter and the emitter agree

Whether an attribute has an annotation is asked in four places: by the filter, for the
signature, for the statement that sets the attribute, and in the table of typed setters.
They ask in different orders and of different attributes. `FirstUnfit` says in the open
which attribute the emitter complains about: the first one without an annotation among
those that become parameters, the required ones before the optional ones.

* `methodBlock_eq_unmapped_iff`: a method is refused for an attribute exactly when that is
  the first unfit one, under every table that is the standard one with entries deleted and
  every binding. The signature comes first, so it finds the attribute; once it is written,
  the setters and the table of typed setters find every annotation that they need.
* `emit_unmapped_iff`: the same for a method written at a level of a writer, and that an
  operation which passes the filter is never refused for an attribute.
-/

set_option autoImplicit false

namespace TypedOps.Operation

open Naming (parameter)

/-- The attributes that become parameters of the method, in the order of its signature: first the
required ones of its `classification`, then the optional ones. -/
def parameterAttributes (op : Operation) : List Attribute :=
  op.classification.required ++ op.classification.optional

/-- The first of the `parameterAttributes` that no annotation fits, in the order of the signature.
-/
def FirstUnfit (table : TypeTable) (op : Operation) (culprit : Attribute) : Prop :=
  ∃ before after, op.parameterAttributes = before ++ culprit :: after ∧
    (∀ a ∈ before, Annotated table a) ∧ ¬Annotated table culprit

/-- The `parameterAttributes` are the attributes that no input names. -/
theorem mem_parameterAttributes_iff (op : Operation) (a : Attribute) :
    a ∈ op.parameterAttributes ↔ a ∈ op.attributes ∧ a.name ∉ op.classification.inferred := by
  simp only [parameterAttributes, classification, givenAttributes, List.mem_append,
    List.mem_filter, Bool.not_eq_true', List.contains_eq_mem, decide_eq_false_iff_not]
  cases a.hasDefault <;> simp

/-! ### Looking for an unfit attribute -/

/-- The first attribute of a list that no annotation of the table fits, as a search. It is what
`FirstUnfit` says of the whole list. -/
def unfit? (table : TypeTable) (attrs : List Attribute) : Option Attribute :=
  attrs.find? fun a => (TypeTag.mapped table a.tag).1.isNone

/-- The attribute that `unfit?` finds has attributes with annotations in front of it, and none of
its own. -/
theorem unfit?_eq_some_iff (table : TypeTable) (attrs : List Attribute) (culprit : Attribute) :
    unfit? table attrs = some culprit ↔
      ∃ before after, attrs = before ++ culprit :: after ∧
        (∀ a ∈ before, Annotated table a) ∧ ¬Annotated table culprit := by
  rw [unfit?, List.find?_eq_some_iff_append]
  simp only [Option.isNone_iff_eq_none, Bool.not_eq_true', Option.isNone_eq_false_iff,
    Option.isSome_iff_ne_none, Annotated, Classical.not_not]
  constructor
  · rintro ⟨hunfit, before, after, hplace, hbefore⟩
    exact ⟨before, after, hplace, hbefore, hunfit⟩
  · rintro ⟨before, after, hplace, hbefore, hunfit⟩
    exact ⟨hunfit, before, after, hplace, hbefore⟩

/-- There is no `unfit?` attribute in a list exactly when all attributes have annotations. -/
theorem unfit?_eq_none_iff (table : TypeTable) (attrs : List Attribute) :
    unfit? table attrs = none ↔ ∀ a ∈ attrs, Annotated table a := by
  simp [unfit?, Annotated, ← Option.isSome_iff_ne_none]

/-- There is a `FirstUnfit` attribute exactly when there is any without an annotation. -/
theorem exists_firstUnfit_iff (table : TypeTable) (op : Operation) :
    (∃ a, FirstUnfit table op a) ↔ ∃ a ∈ op.parameterAttributes, ¬Annotated table a := by
  simp only [FirstUnfit, ← unfit?_eq_some_iff]
  rw [← Option.isSome_iff_exists, ← Option.ne_none_iff_isSome, Ne, unfit?_eq_none_iff]
  simp

/-! ### The signature -/

section
variable (table : TypeTable) (op : Operation)

/-- A tag has a `typeHint?` where its element has one, whether it is the tag of a list or not. -/
theorem typeHint?_eq_none_iff (tag : Text) :
    TypeTag.typeHint? table tag = none ↔ (TypeTag.mapped table tag).1 = none := by
  rw [TypeTag.typeHint?]
  rcases TypeTag.mapped table tag with ⟨_ | element, _ | _⟩ <;> simp

/-- The `attributeHint` of an attribute that has an annotation is given. -/
theorem exists_attributeHint_eq_ok {table : TypeTable} {a : Attribute} (h : Annotated table a) :
    ∃ hint, op.attributeHint table a = .ok hint := by
  rw [attributeHint]
  cases hcase : TypeTag.typeHint? table a.tag with
  | none => exact absurd ((typeHint?_eq_none_iff table a.tag).mp hcase) h
  | some hint => exact ⟨hint, rfl⟩

/-- The `attributeHint` of an attribute without an annotation is refused, with its name, its tag and
its operation in the fault. -/
theorem attributeHint_eq_error {table : TypeTable} {a : Attribute} (h : ¬Annotated table a) :
    op.attributeHint table a = .error (.unmapped op.name a.name a.tag) := by
  rw [attributeHint, (typeHint?_eq_none_iff table a.tag).mpr (Classical.not_not.mp h)]

/-- Parameters shown with their `attributeHint`, one after the other: they are all shown, or the
fault names the first unfit one. -/
theorem mapM_attributeHint (shown : Attribute → Text → Text) (attrs : List Attribute) :
    match unfit? table attrs with
    | some a =>
      (attrs.mapM fun a => do return shown a (← op.attributeHint table a)) =
        .error (.unmapped op.name a.name a.tag)
    | none =>
      ∃ params, (attrs.mapM fun a => do return shown a (← op.attributeHint table a)) =
        .ok params := by
  have hfit : ∀ a, Annotated table a → ∃ t, (do
      return shown a (← op.attributeHint table a) : Except EmitFault Text) = .ok t := by
    intro a ha
    obtain ⟨hint, hhint⟩ := exists_attributeHint_eq_ok op ha
    exact ⟨shown a hint, by rw [hhint]; rfl⟩
  -- The walk over the parameters stops where `unfit?` finds the attribute.
  split
  · next a ha =>
    obtain ⟨before, after, hplace, hbefore, hunfit⟩ := (unfit?_eq_some_iff ..).mp ha
    refine (mapM_eq_error_iff ..).mpr ⟨before, a, after, hplace,
      fun x hx => hfit x (hbefore x hx), ?_⟩
    rw [attributeHint_eq_error op hunfit]
    rfl
  · next hnone =>
    exact exists_mapM_eq_ok_iff.mpr fun a ha => hfit a ((unfit?_eq_none_iff ..).mp hnone a ha)

/-- There are `signatureParams` unless there is an unfit attribute; then the first one is named. -/
theorem signatureParams_cases :
    match unfit? table op.parameterAttributes with
    | some a => op.signatureParams table = .error (.unmapped op.name a.name a.tag)
    | none => ∃ params, op.signatureParams table = .ok params := by
  have hrequired := mapM_attributeHint table op
    (fun a hint => parameter a.name ++ ": " ++ hint) op.classification.required
  have hoptional := mapM_attributeHint table op
    (fun a hint => parameter a.name ++ ": " ++ hint ++ " | None = None")
    op.classification.optional
  have hsplit : unfit? table op.parameterAttributes =
      (unfit? table op.classification.required).or (unfit? table op.classification.optional) :=
    List.find?_append
  rw [hsplit]
  -- The required attributes are asked for first, and then the optional ones.
  cases hr : unfit? table op.classification.required with
  | some a =>
    rw [hr] at hrequired
    exact (bind_eq_error_iff ..).mpr (.inl hrequired)
  | none =>
    rw [hr] at hrequired
    obtain ⟨required, hrequired⟩ := hrequired
    cases ho : unfit? table op.classification.optional with
    | some a =>
      rw [ho] at hoptional
      exact (bind_eq_error_iff ..).mpr
        (.inr ⟨required, hrequired, (bind_eq_error_iff ..).mpr (.inl hoptional)⟩)
    | none =>
      rw [ho] at hoptional
      obtain ⟨optional, hoptional⟩ := hoptional
      simp only [Option.or_none, signatureParams, bind_eq_ok_iff]
      exact ⟨_, required, hrequired, optional, hoptional, rfl⟩

end

/-! ### The setters -/

/-- Among the `typedSetters` there is one for every annotation of the standard table. -/
theorem exists_typedSetter (element : ElementType) :
    ∃ hint setter, TypeTable.standard element = some hint ∧
      Binding.typedSetters.lookup hint = some setter := by
  cases element <;> exact ⟨_, _, rfl, rfl⟩

/-- The statement of `setAttribute` for an attribute with an annotation is refused by the binding
that sets nothing, and by no other. -/
theorem setAttribute_fault {removed : List ElementType} {b : Binding} {a : Attribute}
    (h : Annotated (TypeTable.standard.without removed) a) {operation expr : Text}
    {fault : EmitFault}
    (hfault : b.setAttribute (TypeTable.standard.without removed) operation a expr =
      .error fault) : b = .base ∧ fault = .unimplemented := by
  obtain ⟨hint, hhint⟩ := Option.ne_none_iff_exists'.mp h
  obtain ⟨element, hremoved⟩ : ∃ element,
      TypeTable.standard.without removed element = some hint := by
    obtain ⟨element, -, helement⟩ := Option.bind_eq_some_iff.mp hhint
    exact ⟨element, helement⟩
  -- An annotation in the smaller table is one of the standard table, which has a setter for each of
  -- its own.
  have hstandard : TypeTable.standard element = some hint := by
    rw [TypeTable.without] at hremoved
    split at hremoved
    · cases hremoved
    · exact hremoved
  obtain ⟨hint', setter, hstandard', hsetter⟩ := exists_typedSetter element
  obtain rfl : hint = hint' := Option.some.inj (hstandard.symm.trans hstandard')
  rw [Binding.setAttribute] at hfault
  split at hfault
  · next hmapped =>
    rw [hmapped] at hhint
    cases hhint
  · next hint isList hmapped =>
    rw [hmapped] at hhint
    cases hhint
    have hcall := (map_eq_error_iff ..).mp hfault
    cases b with
    | base =>
      cases hcall
      exact ⟨rfl, rfl⟩
    | graph => cases hcall
    | typed =>
      rw [Binding.setterCall, hsetter] at hcall
      cases hcall

/-- The `settersBlock` for attributes with annotations is refused by the binding that sets nothing,
and by no other. -/
theorem settersBlock_fault {removed : List ElementType} {b : Binding} {op : Operation}
    (h : ∀ a ∈ op.parameterAttributes, Annotated (TypeTable.standard.without removed) a)
    {fault : EmitFault}
    (hfault : op.settersBlock (TypeTable.standard.without removed) b = .error fault) :
    b = .base ∧ fault = .unimplemented := by
  rcases (bind_eq_error_iff ..).mp hfault with hrequired | ⟨required, -, hrest⟩
  · obtain ⟨before, a, after, hplace, -, ha⟩ := (mapM_eq_error_iff ..).mp hrequired
    refine setAttribute_fault (h a ?_) ha
    simp [parameterAttributes, hplace]
  · rcases (bind_eq_error_iff ..).mp hrest with hoptional | ⟨optional, -, hdone⟩
    · obtain ⟨before, a, after, hplace, -, ha⟩ := (mapM_eq_error_iff ..).mp hoptional
      rcases (bind_eq_error_iff ..).mp ha with ha | ⟨setter, -, hdone⟩
      · refine setAttribute_fault (h a ?_) ha
        simp [parameterAttributes, hplace]
      · cases hdone
    · cases hdone

/-! ### The method -/

/-- The `methodBlock` is refused for an attribute exactly when that is the first unfit one of its
parameters. -/
theorem methodBlock_eq_unmapped_iff (removed : List ElementType) (b : Binding) (op : Operation)
    (doc : Documentation) (o n t : Text) :
    op.methodBlock (TypeTable.standard.without removed) b doc = .error (.unmapped o n t) ↔
      ∃ a, FirstUnfit (TypeTable.standard.without removed) op a ∧
        o = op.name ∧ n = a.name ∧ t = a.tag := by
  have hsignature := signatureParams_cases (TypeTable.standard.without removed) op
  simp only [FirstUnfit, ← unfit?_eq_some_iff]
  cases hunfit : unfit? (TypeTable.standard.without removed) op.parameterAttributes with
  | some a =>
    rw [hunfit] at hsignature
    have hblock : op.methodBlock (TypeTable.standard.without removed) b doc =
        .error (.unmapped op.name a.name a.tag) :=
      (bind_eq_error_iff ..).mpr (.inl hsignature)
    rw [hblock]
    simp [eq_comm]
  | none =>
    rw [hunfit] at hsignature
    obtain ⟨params, hparams⟩ := hsignature
    have hfit := (unfit?_eq_none_iff ..).mp hunfit
    simp only [reduceCtorEq, false_and, exists_false, iff_false]
    intro hfault
    rcases (bind_eq_error_iff ..).mp hfault with hfault | ⟨_, -, hfault⟩
    · rw [hparams] at hfault
      cases hfault
    -- The docstring has faults of another kind.
    rcases (bind_eq_error_iff ..).mp hfault with hfault | ⟨docLines, -, hfault⟩
    · cases hdoc : docstringLines op doc <;> rw [hdoc] at hfault <;> cases hfault
    rcases (bind_eq_error_iff ..).mp hfault with hfault | ⟨setters, -, hfault⟩
    · cases (settersBlock_fault hfit hfault).2
    -- So has the binding that cannot finish an operation.
    rcases (bind_eq_error_iff ..).mp hfault with hfault | ⟨finish, -, hfault⟩
    · cases b <;> cases hfault
    · cases hfault

/-- A writer at a level that it can go back from is given the method by `emit`, or the fault of the
method. -/
theorem emit_eq_map (table : TypeTable) (b : Binding) (op : Operation) (doc : Documentation)
    (level : Nat) (written : List Text) :
    op.emit table b doc { level := level, lines := written } =
      (op.methodBlock table b doc).map (Writer.block { level := level, lines := written }) := by
  have hlevel : ¬((level : Int) < 0 ∧
      -(level : Int) ≤ op.reachedDepth (op.methodBlock table b doc)) := by omega
  rw [emit]
  exact if_neg hlevel

/-- Take the standard table with any entries deleted, any binding and a writer at any level. To
`emit` a method is refused for an attribute exactly when some attribute that no input names has no
annotation; the attribute refused is then the first such one, the required ones before the optional
ones. So an operation that the filter lets through under the same table is never refused for an
attribute. -/
theorem emit_unmapped_iff (removed : List ElementType) (b : Binding) (op : Operation)
    (doc : Documentation) (level : Nat) (written : List Text) :
    let table := TypeTable.standard.without removed
    let outcome := op.emit table b doc { level := level, lines := written }
    ((∃ o n t, outcome = .error (.unmapped o n t)) ↔
        ∃ a ∈ op.attributes, a.name ∉ op.classification.inferred ∧ ¬Annotated table a) ∧
      (∀ o n t, outcome = .error (.unmapped o n t) ↔
        ∃ a, FirstUnfit table op a ∧ o = op.name ∧ n = a.name ∧ t = a.tag) ∧
      ∀ known, op.skipReason? table known = none →
        ∀ o n t, outcome ≠ .error (.unmapped o n t) := by
  intro table outcome
  -- Writing at a level adds nothing to the faults of the method itself.
  have hnamed : ∀ o n t, outcome = .error (.unmapped o n t) ↔
      ∃ a, FirstUnfit table op a ∧ o = op.name ∧ n = a.name ∧ t = a.tag := by
    intro o n t
    rw [← methodBlock_eq_unmapped_iff removed b op doc]
    show op.emit _ b doc _ = _ ↔ _
    rw [emit_eq_map, map_eq_error_iff]
  have hexists : (∃ o n t, outcome = .error (.unmapped o n t)) ↔
      ∃ a ∈ op.attributes, a.name ∉ op.classification.inferred ∧ ¬Annotated table a := by
    have hunfit := exists_firstUnfit_iff table op
    simp only [mem_parameterAttributes_iff, and_assoc] at hunfit
    rw [← hunfit]
    constructor
    · rintro ⟨o, n, t, h⟩
      obtain ⟨a, ha, -⟩ := (hnamed o n t).mp h
      exact ⟨a, ha⟩
    · rintro ⟨a, ha⟩
      exact ⟨op.name, a.name, a.tag, (hnamed _ _ _).mpr ⟨a, ha, rfl, rfl, rfl⟩⟩
  refine ⟨hexists, hnamed, fun known hpasses o n t h => ?_⟩
  -- An operation with a method passes the filter, so all of its attributes fit.
  obtain ⟨-, hfit, -⟩ := (skipReason?_eq_none_iff table op known).mp hpasses
  obtain ⟨a, ha, -, hunfit⟩ := hexists.mp ⟨o, n, t, h⟩
  exact hunfit (hfit a ha)

/-- An operation whose first attribute is inferred and whose `parameterAttributes` stand in another
order than it declares them: there the optional one comes last. -/
def scatter : Operation where
  name := "Scatter"
  inputs := [{ name := "x", typeAttr := "T" }]
  attributes :=
    [{ name := "T", tag := "func" }, { name := "axis", tag := "int", hasDefault := true },
      { name := "sizes", tag := "list(int)" }, { name := "exact", tag := "bool" }]

/-- Without integers `Scatter` is refused for its required attribute, though the filter would name
another one and the optional attribute is declared first. `Neg`, which passes the filter, is not
refused. -/
theorem emit_unmapped_iff_scatter :
    (scatter.emit (TypeTable.standard.without [.int]) .typed { name := "Scatter" } { level := 1 } =
        .error (.unmapped "Scatter" "sizes" "list(int)")) ∧
      (∃ a ∈ scatter.attributes, a.name ∉ scatter.classification.inferred ∧
        ¬Annotated (TypeTable.standard.without [.int]) a) ∧
      (({ name := "Neg" } : Operation).skipReason? (TypeTable.standard.without [.int])
          (some { name := "Neg", summary := "Minus." }) = none ∧
        ∀ o n t, ({ name := "Neg" } : Operation).emit (TypeTable.standard.without [.int]) .graph
            { name := "Neg" } { level := 1 } ≠ .error (.unmapped o n t)) := by
  have hfirst : FirstUnfit (TypeTable.standard.without [.int]) scatter
      { name := "sizes", tag := "list(int)" } :=
    ⟨[], [{ name := "exact", tag := "bool" }, { name := "axis", tag := "int", hasDefault := true }],
      rfl, by simp, fun h => h rfl⟩
  have hpasses : ({ name := "Neg" } : Operation).skipReason? (TypeTable.standard.without [.int])
      (some { name := "Neg", summary := "Minus." }) = none := rfl
  have hscatter := emit_unmapped_iff [.int] .typed scatter { name := "Scatter" } 1 []
  have hneg := emit_unmapped_iff [.int] .graph { name := "Neg" } { name := "Neg" } 1 []
  have hrefused := (hscatter.2.1 "Scatter" "sizes" "list(int)").mpr ⟨_, hfirst, rfl, rfl, rfl⟩
  exact ⟨hrefused, hscatter.1.mp ⟨_, _, _, hrefused⟩, hpasses, hneg.2.2 _ hpasses⟩

end TypedOps.Operation
