import TypedOps.Proofs.Emit.Accounting
import TypedOps.Proofs.Emit.Bindings
import TypedOps.Proofs.Emit.Unmapped
import TypedOps.Proofs.Operation.Default
import TypedOps.Proofs.Run.CatalogOrder

/-!
# `TypedOps.Proofs.Emit.Refusals`: what can keep a module from being generated

An operation gets a method unless the filter leaves it out. Its method can then be refused for
four reasons: an attribute without an annotation, a default that documentation cannot show, a
setter that is missing, or a binding that cannot finish an operation. Behind the filter and with
a registered binding only the second is left (`methodBlock_eq_error_iff`).

A run ends with a fault exactly when one of its operations is refused (`refused_of_progress`,
`exists_fault_of_refused`). So a catalog of storable definitions gives a module exactly when none
of the operations that get a method has an optional attribute whose default documentation cannot
show (`run_eq_error_iff`).
-/

set_option autoImplicit false

namespace TypedOps

open Catalog (OperationDef)
open Operation (Annotated)

/-! ### Methods -/

/-- Behind the filter of `skipReason?`, and with a binding that has all steps, a method is refused
for a default that cannot be shown and for nothing else. -/
theorem methodBlock_eq_error_iff {removed : List ElementType} {b : Binding} (hb : b ≠ .base)
    {op : Operation}
    (hfit : ∀ a ∈ op.attributes, Annotated (TypeTable.standard.without removed) a)
    (doc : Documentation) (fault : EmitFault) :
    op.methodBlock (TypeTable.standard.without removed) b doc = .error fault ↔
      ∃ f, docstringLines op doc = .error f ∧ fault = .badDefault f := by
  have hparameters : ∀ a ∈ op.parameterAttributes,
      Annotated (TypeTable.standard.without removed) a :=
    fun a ha => hfit a ((Operation.mem_parameterAttributes_iff op a).mp ha).1
  have hsignature := Operation.signatureParams_cases (TypeTable.standard.without removed) op
  rw [(Operation.unfit?_eq_none_iff ..).mpr hparameters] at hsignature
  obtain ⟨params, hparams⟩ := hsignature
  rw [Operation.methodBlock, hparams]
  constructor
  · intro h
    rcases (bind_eq_error_iff ..).mp h with h | ⟨_, -, h⟩
    · cases h
    rcases (bind_eq_error_iff ..).mp h with h | ⟨docLines, -, h⟩
    · cases hdoc : docstringLines op doc with
      | error f =>
        rw [hdoc] at h
        cases h
        exact ⟨f, rfl, rfl⟩
      | ok docLines =>
        rw [hdoc] at h
        cases h
    -- Neither the setters nor the end of the method are refused.
    rcases (bind_eq_error_iff ..).mp h with h | ⟨setters, -, h⟩
    · exact absurd (Operation.settersBlock_fault hparameters h).1 hb
    rcases (bind_eq_error_iff ..).mp h with h | ⟨finish, -, h⟩
    · cases b with
      | base => exact absurd rfl hb
      | graph => cases h
      | typed => cases h
    · cases h
  · rintro ⟨f, hdoc, rfl⟩
    rw [hdoc]
    rfl

/-! ### Runs -/

section
variable (table : TypeTable) (b : Binding) (docs : Text → Option Documentation)

/-- An operation that gets a method, as `skipReason?` has nothing against it, is refused for the
given fault. -/
def Refused (op : Operation) (fault : EmitFault) : Prop :=
  op.skipReason? table (docs op.name) = none ∧
    ∃ doc, docs op.name = some doc ∧ op.methodBlock table b doc = .error fault

variable {table b docs}

/-- The fault of a `progress` is that of one of its operations, by induction over them. -/
theorem refused_of_progress {ops : List Operation} {fault : EmitFault}
    (h : (progress table b docs ops).fault? = some fault) :
    ∃ op ∈ ops, Refused table b docs op fault := by
  induction ops with
  | nil => cases h
  | cons op ops ih =>
    -- Whether the operation is left out, written or refused, the rest of the run stays a run.
    have hrest : (progress table b docs ops).fault? = some fault →
        ∃ o ∈ op :: ops, Refused table b docs o fault := by
      intro hrest
      obtain ⟨o, ho, hrefused⟩ := ih hrest
      exact ⟨o, List.mem_cons_of_mem op ho, hrefused⟩
    cases hreason : op.skipReason? table (docs op.name) with
    | some reason =>
      rw [progress_cons_of_reason table b docs hreason] at h
      exact hrest h
    | none =>
      obtain ⟨doc, hdoc⟩ := exists_documentation table docs hreason
      cases hblock : op.methodBlock table b doc with
      | error fault' =>
        rw [progress_cons_of_fault table b docs hreason hdoc hblock] at h
        cases h
        exact ⟨op, List.mem_cons_self, hreason, doc, hdoc, hblock⟩
      | ok block =>
        rw [progress_cons_of_block table b docs hreason hdoc hblock] at h
        exact hrest h

/-- A `progress` over an operation that is refused ends with a fault, of this operation or of one in
front of it. -/
theorem exists_fault_of_refused {ops : List Operation} {op : Operation} (hop : op ∈ ops)
    {fault : EmitFault} (h : Refused table b docs op fault) :
    ∃ fault', (progress table b docs ops).fault? = some fault' := by
  induction ops with
  | nil => cases hop
  | cons first ops ih =>
    -- The operation itself may not be reached, as one in front of it may end the run first.
    rcases List.mem_cons.mp hop with rfl | hop
    · obtain ⟨hreason, doc, hdoc, hblock⟩ := h
      rw [progress_cons_of_fault table b docs hreason hdoc hblock]
      exact ⟨fault, rfl⟩
    · have hrest := ih hop
      cases hreason : first.skipReason? table (docs first.name) with
      | some reason =>
        rw [progress_cons_of_reason table b docs hreason]
        exact hrest
      | none =>
        obtain ⟨doc, hdoc⟩ := exists_documentation table docs hreason
        cases hblock : first.methodBlock table b doc with
        | error fault' =>
          rw [progress_cons_of_fault table b docs hreason hdoc hblock]
          exact ⟨fault', rfl⟩
        | ok block =>
          rw [progress_cons_of_block table b docs hreason hdoc hblock]
          exact hrest

end

/-! ### Catalogs -/

/-- An operation of a catalog that gets a method, and has an optional attribute without
`Attribute.ShowsDefault`. -/
def HasUnshownDefault (table : TypeTable) (catalog : List OperationDef) (overrides : List Text) :
    Prop :=
  ∃ op ∈ Catalog.signatures catalog,
    op.skipReason? table
      (((Api.Store.ofDefinitions catalog).putAll overrides).documentation? op.name) = none ∧
    ∃ a ∈ op.classification.optional, ¬a.ShowsDefault

/-- The default of every attribute of a storable catalog is `Value.Writable`: it is the plain value
of a storable default, or `Value.nothing` where none is declared. -/
theorem writable_of_mem_signatures {catalog : List OperationDef}
    (hcatalog : ∀ definition ∈ catalog, definition.Storable) {op : Operation}
    (hop : op ∈ Catalog.signatures catalog) : ∀ a ∈ op.attributes, a.defaultValue.Writable := by
  intro a ha
  obtain ⟨definition, hdefinition, rfl⟩ := List.mem_map.mp hop
  obtain ⟨declared, hdeclared, rfl⟩ := List.mem_map.mp ha
  have hstorable := (hcatalog definition hdefinition).attributes declared hdeclared
  show ((declared.defaultValue.map Catalog.AttributeValue.plain).getD .nothing).Writable
  cases hdefault : declared.defaultValue with
  | none => exact Value.writable_of_parts_eq rfl rfl
  | some v => exact Catalog.AttributeValue.writable_plain (hstorable.defaultValue v hdefault)

/-- The fault of a `run` over a catalog is that of the progress over its sorted operations, with the
documentation of the store. -/
theorem run_eq_error_iff_progress (table : TypeTable) {name : Text} {b : Binding}
    (hname : Binding.ofName? name = some b) (catalog : List OperationDef) (overrides : List Text)
    (fault : EmitFault) :
    (run table name catalog overrides).2 = .error fault ↔
      (progress table b ((Api.Store.ofDefinitions catalog).putAll overrides).documentation?
        (sortedByName (Catalog.signatures catalog))).fault? = some fault := by
  simp only [run, generateModuleNamed, hname, generateModule, map_eq_error_iff]
  split
  · next fault' hfault =>
    rw [hfault]
    simp
  · next hnone =>
    rw [hnone]
    simp

/-- With a registered binding a `run` over a storable catalog gives no module exactly when an
operation that gets a method has a default that documentation cannot show, and the fault is of this
kind. -/
theorem run_eq_error_iff (removed : List ElementType) {name : Text} {b : Binding}
    (hname : Binding.ofName? name = some b) {catalog : List OperationDef}
    (hcatalog : ∀ definition ∈ catalog, definition.Storable) (overrides : List Text) :
    ((∃ fault, (run (TypeTable.standard.without removed) name catalog overrides).2 =
        .error fault) ↔
      HasUnshownDefault (TypeTable.standard.without removed) catalog overrides) ∧
    ∀ fault, (run (TypeTable.standard.without removed) name catalog overrides).2 = .error fault →
      ∃ f, fault = .badDefault f := by
  have hb : b ≠ .base := Binding.ne_base_of_ofName? hname
  simp only [run_eq_error_iff_progress _ hname]
  have hmem : ∀ op, op ∈ sortedByName (Catalog.signatures catalog) ↔
      op ∈ Catalog.signatures catalog := fun op => List.mem_mergeSort
  -- An operation that gets a method fits the annotations, so nothing but its docstring can fail.
  have hmethod : ∀ op ∈ Catalog.signatures catalog, ∀ doc fault,
      op.skipReason? (TypeTable.standard.without removed)
        (((Api.Store.ofDefinitions catalog).putAll overrides).documentation? op.name) = none →
      (op.methodBlock (TypeTable.standard.without removed) b doc = .error fault ↔
        ∃ f, docstringLines op doc = .error f ∧ fault = .badDefault f) := by
    intro op hop doc fault hreason
    obtain ⟨-, hfit, -⟩ := (Operation.skipReason?_eq_none_iff ..).mp hreason
    exact methodBlock_eq_error_iff hb hfit doc fault
  refine ⟨⟨?_, ?_⟩, ?_⟩
  · rintro ⟨fault, hfault⟩
    obtain ⟨op, hop, hreason, doc, -, hblock⟩ := refused_of_progress hfault
    rw [hmem] at hop
    obtain ⟨f, hdoc, -⟩ := (hmethod op hop doc fault hreason).mp hblock
    have hwritable := writable_of_mem_signatures hcatalog hop
    have hshows := (exists_docstringLines_iff hwritable doc).not.mp
      ((exists_error_iff _).mp ⟨f, hdoc⟩)
    simp only [not_forall] at hshows
    obtain ⟨a, ha, hunshown⟩ := hshows
    exact ⟨op, hop, hreason, a, ha, hunshown⟩
  · rintro ⟨op, hop, hreason, a, ha, hunshown⟩
    obtain ⟨doc, hdoc⟩ := exists_documentation _ _ hreason
    have hwritable := writable_of_mem_signatures hcatalog hop
    obtain ⟨f, hf⟩ := (exists_error_iff (docstringLines op doc)).mpr fun hlines =>
      hunshown ((exists_docstringLines_iff hwritable doc).mp hlines a ha)
    exact exists_fault_of_refused ((hmem op).mpr hop)
      ⟨hreason, doc, hdoc, (hmethod op hop doc _ hreason).mpr ⟨f, hf, rfl⟩⟩
  · intro fault hfault
    obtain ⟨op, hop, hreason, doc, -, hblock⟩ := refused_of_progress hfault
    obtain ⟨f, -, hf⟩ := (hmethod op ((hmem op).mp hop) doc fault hreason).mp hblock
    exact ⟨f, hf⟩

end TypedOps
