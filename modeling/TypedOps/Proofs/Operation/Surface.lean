import TypedOps.Operation.Surface

/-!
# `TypedOps.Proofs.Operation.Surface`: when an operation is left out

`LeftOut` says in the open why an operation gets no method: it is internal; or it
is not, and one of its attributes is the first that no annotation fits; or every
attribute has an annotation and nobody has written a summary. The three reasons
exclude each other. `skipReason?_eq_some_iff` shows that the filter gives exactly
this reason, and `skipReason?_eq_none_iff` says what is left: a public operation
whose attributes all have annotations and that has a summary.
-/

set_option autoImplicit false

namespace TypedOps.Operation

/-- Whether an annotation of the table fits an attribute's type, by `TypeTag.mapped`. -/
def Annotated (table : TypeTable) (a : Attribute) : Prop := (TypeTag.mapped table a.tag).1 ≠ none

/-- Whether an operation has a `Documentation` with a summary. -/
def Summarised (doc : Option Documentation) : Prop := ∃ d, doc = some d ∧ d.summary ≠ []

/-- Why an operation with the given documentation is left out, said without the filter
`skipReason?`. -/
inductive LeftOut (table : TypeTable) (op : Operation) (doc : Option Documentation) :
    SkipReason → Prop where
  /-- The name of the operation marks it as internal. -/
  | internal (marked : op.isInternal = true) : LeftOut table op doc .internal
  /-- The operation is public, and `culprit` is its first attribute without an annotation. -/
  | unmapped {before after : List Attribute} {culprit : Attribute}
      (visible : op.isInternal = false)
      (place : op.attributes = before ++ culprit :: after)
      (first : ∀ a ∈ before, Annotated table a)
      (unfit : ¬Annotated table culprit) : LeftOut table op doc (.unmappedAttribute culprit)
  /-- The operation is public, every attribute has an annotation, and there is no summary. -/
  | undocumented (visible : op.isInternal = false)
      (fit : ∀ a ∈ op.attributes, Annotated table a)
      (silent : ¬Summarised doc) : LeftOut table op doc .undocumented

/-- The filter's test of the documentation is whether the operation is `Summarised`. -/
theorem any_summary_iff (doc : Option Documentation) :
    (doc.any fun d => d.summary != []) = true ↔ Summarised doc := by
  cases doc <;> simp [Summarised]

/-- The search of `firstUnmapped?` stops at the first attribute without an annotation. -/
theorem firstUnmapped?_eq_some_iff (table : TypeTable) (op : Operation) (culprit : Attribute) :
    op.firstUnmapped? table = some culprit ↔
      ¬Annotated table culprit ∧ ∃ before after, op.attributes = before ++ culprit :: after ∧
        ∀ a ∈ before, Annotated table a := by
  rw [firstUnmapped?, List.find?_eq_some_iff_append]
  simp [Annotated, ← Option.isSome_iff_ne_none]

/-- There is no `firstUnmapped?` attribute to stop the filter exactly when all have annotations. -/
theorem firstUnmapped?_eq_none_iff (table : TypeTable) (op : Operation) :
    op.firstUnmapped? table = none ↔ ∀ a ∈ op.attributes, Annotated table a := by
  simp [firstUnmapped?, Annotated, ← Option.isSome_iff_ne_none]

/-- The filter gives a reason exactly when the operation is `LeftOut` for it. -/
theorem skipReason?_eq_some_iff (table : TypeTable) (op : Operation)
    (doc : Option Documentation) (reason : SkipReason) :
    op.skipReason? table doc = some reason ↔ LeftOut table op doc reason := by
  constructor
  · intro h
    -- The filter makes its tests in the order of the reasons, and each test that passes rules one
    -- out.
    unfold skipReason? at h
    split at h
    · next hinternal =>
      cases h
      exact .internal hinternal
    · next hvisible =>
      have hvisible : op.isInternal = false := by simpa using hvisible
      split at h
      · next culprit hfirst =>
        cases h
        obtain ⟨hunfit, before, after, hplace, hbefore⟩ :=
          (firstUnmapped?_eq_some_iff table op culprit).mp hfirst
        exact .unmapped hvisible hplace hbefore hunfit
      · next hnone =>
        split at h
        · cases h
        · next hsilent =>
          cases h
          exact .undocumented hvisible ((firstUnmapped?_eq_none_iff table op).mp hnone)
            (fun hdoc => hsilent ((any_summary_iff doc).mpr hdoc))
  · intro h
    unfold skipReason?
    -- Each reason brings what the earlier tests need.
    cases h with
    | internal hinternal => rw [if_pos hinternal]
    | unmapped hvisible hplace hbefore hunfit =>
      have hfirst := (firstUnmapped?_eq_some_iff table op _).mpr
        ⟨hunfit, _, _, hplace, hbefore⟩
      simp [hvisible, hfirst]
    | undocumented hvisible hfit hsilent =>
      have hnone := (firstUnmapped?_eq_none_iff table op).mpr hfit
      have htest : (doc.any fun d => d.summary != []) = false := by
        rw [Bool.eq_false_iff]
        exact fun h => hsilent ((any_summary_iff doc).mp h)
      simp [hvisible, hnone, htest]

/-- There is no `skipReason?` exactly for a public operation whose attributes all have annotations
and that has a summary. -/
theorem skipReason?_eq_none_iff (table : TypeTable) (op : Operation)
    (doc : Option Documentation) :
    op.skipReason? table doc = none ↔
      op.isInternal = false ∧ (∀ a ∈ op.attributes, Annotated table a) ∧ Summarised doc := by
  rw [← firstUnmapped?_eq_none_iff, ← any_summary_iff, skipReason?]
  cases op.isInternal <;> cases op.firstUnmapped? table <;> simp

end TypedOps.Operation
