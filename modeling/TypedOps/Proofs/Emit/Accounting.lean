import Mathlib.Data.List.Forall2
import TypedOps.Emit.Module
import TypedOps.Proofs.Emit.Method
import TypedOps.Proofs.Emit.Order
import TypedOps.Proofs.Operation.Surface

/-!
# `TypedOps.Proofs.Emit.Accounting`: a run accounts for every operation

Sorting, filtering, warning, reporting and emitting are separate steps of a run.
`Accounts` states how they agree: there is one order of the operations, and the
report, the warnings and the methods of the module are all read off it.

* `progress_accounts`: a run over any list of operations that meets no fault gives
  exactly what `surfaced`, `leftOut` and `skipWarning?` say. The induction follows
  `progress`; each operation is either left out or written.
* `generateModule_accounts`: the same for a whole module.

An operation may occur several times under one name. Nothing below assumes that
names are distinct.
-/

set_option autoImplicit false

namespace TypedOps

/-! ### What a run comes to -/

section
variable (table : TypeTable) (b : Binding) (docs : Text → Option Documentation)

/-- The operations that get a method: those for which `skipReason?` gives no reason. -/
def surfaced (ops : List Operation) : List Operation :=
  ops.filter fun op => (op.skipReason? table (docs op.name)).isNone

/-- An operation that `skipReason?` keeps out adds nothing to `surfaced`. -/
theorem surfaced_cons_of_some {op : Operation} {reason : SkipReason}
    (hreason : op.skipReason? table (docs op.name) = some reason) (ops : List Operation) :
    surfaced table docs (op :: ops) = surfaced table docs ops := by
  simp [surfaced, hreason]

/-- An operation without a `skipReason?` is the first of those that are `surfaced`. -/
theorem surfaced_cons_of_none {op : Operation}
    (hreason : op.skipReason? table (docs op.name) = none) (ops : List Operation) :
    surfaced table docs (op :: ops) = op :: surfaced table docs ops := by
  simp [surfaced, hreason]

/-- The operations that get no method, each with the reason that `skipReason?` gives, in the order
in which they are taken. -/
def leftOut (ops : List Operation) : List (Text × SkipReason) :=
  ops.filterMap fun op =>
    (op.skipReason? table (docs op.name)).map fun reason => (op.name, reason)

/-- The warning that an operation left out is worth: only the `SkipReason` of an attribute without
an annotation is, and the warning names it. -/
def skipWarning? : Text × SkipReason → Option Warning
  | (name, .unmappedAttribute culprit) =>
    some (.operationSkipped name culprit.tag culprit.name)
  | (_, .internal) | (_, .undocumented) => none

/-- A block is the method of a documented operation, as `methodBlock` gives it, and one of its lines
opens a method: the one with the operation's name. -/
def WrittenAs (op : Operation) (block : List Line) : Prop :=
  ∃ doc, docs op.name = some doc ∧ op.methodBlock table b doc = .ok block ∧
    ∃ params, Operation.methodLines block = [op.defLine params]

/-- The warnings that the run gives with a reason are the `skipWarning?` of its place in the report.
-/
theorem skipWarnings_eq (op : Operation) (reason : SkipReason) :
    op.skipWarnings reason = (skipWarning? (op.name, reason)).toList := by
  cases reason <;> rfl

/-- An operation that `skipReason?` lets through has documentation, since the want of it is one of
the reasons. -/
theorem exists_documentation {op : Operation}
    (h : op.skipReason? table (docs op.name) = none) : ∃ doc, docs op.name = some doc := by
  obtain ⟨-, -, doc, hdoc, -⟩ := (Operation.skipReason?_eq_none_iff table op _).mp h
  exact ⟨doc, hdoc⟩

/-- What a run without a fault comes to, over any list of operations. It is the invariant of
`Progress` behind the account of a whole module. -/
structure ProgressAccounts (ops : List Operation) (p : Progress) : Prop where
  blocks : List.Forall₂ (WrittenAs table b docs) (surfaced table docs ops) p.blocks
  emitted : p.report.emitted = (surfaced table docs ops).map (·.name)
  skipped : p.report.skipped = leftOut table docs ops
  warnings : p.warnings = (leftOut table docs ops).filterMap skipWarning?

/-- An operation with a `skipReason?` adds its entry to the report and its warnings to the
`progress`, and nothing else. -/
theorem progress_cons_of_reason {op : Operation} {reason : SkipReason}
    (hreason : op.skipReason? table (docs op.name) = some reason) (ops : List Operation) :
    progress table b docs (op :: ops) =
      { progress table b docs ops with
        report := { (progress table b docs ops).report with
          skipped := (op.name, reason) :: (progress table b docs ops).report.skipped }
        warnings := op.skipWarnings reason ++ (progress table b docs ops).warnings } := by
  rw [progress, hreason]

/-- An operation with a `methodBlock` adds this block and its name to the `progress`, and nothing
else. -/
theorem progress_cons_of_block {op : Operation} {doc : Documentation} {block : List Line}
    (hreason : op.skipReason? table (docs op.name) = none) (hdoc : docs op.name = some doc)
    (hblock : op.methodBlock table b doc = .ok block) (ops : List Operation) :
    progress table b docs (op :: ops) =
      { progress table b docs ops with
        blocks := block :: (progress table b docs ops).blocks
        report := { (progress table b docs ops).report with
          emitted := op.name :: (progress table b docs ops).report.emitted } } := by
  rw [progress, hreason, hdoc, Option.getD_some, hblock]

/-- An operation whose method cannot be written ends the run with the `EmitFault`, whatever
operations follow. -/
theorem progress_cons_of_fault {op : Operation} {doc : Documentation} {fault : EmitFault}
    (hreason : op.skipReason? table (docs op.name) = none) (hdoc : docs op.name = some doc)
    (hblock : op.methodBlock table b doc = .error fault) (ops : List Operation) :
    progress table b docs (op :: ops) = { fault? := some fault } := by
  rw [progress, hreason, hdoc, Option.getD_some, hblock]

/-- A `progress` without a fault writes the surfaced operations and reports the others, by induction
over the operations with one case for each lemma above. -/
theorem progress_accounts (ops : List Operation)
    (h : (progress table b docs ops).fault? = none) :
    ProgressAccounts table b docs ops (progress table b docs ops) := by
  -- A fault of the rest is a fault of the whole run, so the hypothesis goes down.
  induction ops with
  | nil => exact ⟨.nil, rfl, rfl, rfl⟩
  | cons op ops ih =>
    cases hreason : op.skipReason? table (docs op.name) with
    | some reason =>
      rw [progress_cons_of_reason table b docs hreason] at h ⊢
      obtain ⟨hblocks, hemitted, hskipped, hwarnings⟩ := ih h
      have hsurfaced := surfaced_cons_of_some table docs hreason ops
      have hleft : leftOut table docs (op :: ops) =
          (op.name, reason) :: leftOut table docs ops := by
        simp [leftOut, hreason]
      refine ⟨hsurfaced ▸ hblocks, hsurfaced ▸ hemitted, ?_, ?_⟩
      · rw [hleft, hskipped]
      · rw [hleft, hwarnings, skipWarnings_eq, List.filterMap_cons]
        cases skipWarning? (op.name, reason) <;> rfl
    | none =>
      obtain ⟨doc, hdoc⟩ := exists_documentation table docs hreason
      cases hblock : op.methodBlock table b doc with
      | error fault =>
        -- A fault here would be the run's fault.
        rw [progress_cons_of_fault table b docs hreason hdoc hblock] at h
        cases h
      | ok block =>
        rw [progress_cons_of_block table b docs hreason hdoc hblock] at h ⊢
        obtain ⟨hblocks, hemitted, hskipped, hwarnings⟩ := ih h
        have hsurfaced := surfaced_cons_of_none table docs hreason ops
        have hleft : leftOut table docs (op :: ops) = leftOut table docs ops := by
          simp [leftOut, hreason]
        obtain ⟨p, -, hp⟩ := (Operation.methodBlock_eq_ok_iff table b op doc block).mp hblock
        have hwritten : WrittenAs table b docs op block :=
          ⟨doc, hdoc, hblock, p.params, hp ▸ Operation.methodLines_block op p⟩
        refine ⟨?_, ?_, hleft ▸ hskipped, hleft ▸ hwarnings⟩
        · rw [hsurfaced]
          exact .cons hwritten hblocks
        · rw [hsurfaced, List.map_cons, hemitted]

/-- The names of the `surfaced` operations and of those that are `leftOut` are the names of all,
each as often as it occurs. -/
theorem names_perm (ops : List Operation) :
    ((surfaced table docs ops).map (·.name) ++ (leftOut table docs ops).map Prod.fst).Perm
      (ops.map (·.name)) := by
  have hleft : (leftOut table docs ops).map Prod.fst =
      (ops.filter fun op => !(op.skipReason? table (docs op.name)).isNone).map (·.name) := by
    induction ops with
    | nil => rfl
    | cons op ops ih =>
      cases hreason : op.skipReason? table (docs op.name) with
      | none => simpa [leftOut, hreason] using ih
      | some reason => simpa [leftOut, hreason] using ih
  rw [hleft, surfaced, ← List.map_append]
  exact (List.filter_append_perm _ ops).map _

/-- The names of the operations that are `leftOut` stand in the order of the operations, so
ascending operations give an ascending report. -/
theorem leftOut_pairwise {ops : List Operation}
    (h : ops.Pairwise fun x y => Text.le x.name y.name = true) :
    ((leftOut table docs ops).map Prod.fst).Pairwise fun s t => Text.le s t = true := by
  rw [List.pairwise_map, leftOut, List.pairwise_filterMap]
  refine h.imp fun {x y} hxy => ?_
  intro s hs t ht
  obtain ⟨-, -, rfl⟩ := Option.map_eq_some_iff.mp hs
  obtain ⟨-, -, rfl⟩ := Option.map_eq_some_iff.mp ht
  exact hxy

/-! ### A whole module -/

/-- How the report, the warnings and the methods of a module account for the
operations it was made from. `taken` is the order in which they were taken. -/
structure Accounts (ops taken : List Operation) (warnings : List Warning)
    (m : GeneratedModule) : Prop where
  /-- The order loses and repeats nothing. -/
  taken_perm : taken.Perm ops
  /-- The order is ascending by name. -/
  taken_ascending : taken.Pairwise fun x y => Text.le x.name y.name = true
  /-- Operations of one name keep the order they were given in. -/
  taken_stable : ∀ name, taken.filter (·.name == name) = ops.filter (·.name == name)
  /-- Every operation is emitted or skipped, as often as it occurs. -/
  names : (m.report.emitted ++ m.report.skipped.map Prod.fst).Perm (ops.map (·.name))
  /-- The emitted names are ascending. -/
  emitted_ascending : m.report.emitted.Pairwise fun s t => Text.le s t = true
  /-- The skipped names are ascending. -/
  skipped_ascending : (m.report.skipped.map Prod.fst).Pairwise fun s t => Text.le s t = true
  /-- An operation is skipped with exactly the reason that the filter finds. -/
  skipped : m.report.skipped = leftOut table docs taken
  /-- All others are emitted. -/
  emitted : m.report.emitted = (surfaced table docs taken).map (·.name)
  /-- The filter asks in order: internal, an attribute without an annotation, no
  summary. -/
  reasons : ∀ op reason, op.skipReason? table (docs op.name) = some reason ↔
    Operation.LeftOut table op (docs op.name) reason
  /-- Each skip for an attribute gives one warning that names it; no other does. -/
  warnings : warnings = m.report.skipped.filterMap skipWarning?
  /-- The code holds one method for each emitted operation, in this order. -/
  methods : ∃ blocks, m.code = moduleCode b blocks ∧
    List.Forall₂ (WrittenAs table b docs) (surfaced table docs taken) blocks

/-- A run of `generateModule` that returns a module met no fault, and the module is made of the
blocks of its `progress`. -/
theorem generateModule_eq_ok_iff (ops : List Operation) (warnings : List Warning)
    (m : GeneratedModule) :
    generateModule table b ops docs = (warnings, .ok m) ↔
      (progress table b docs (sortedByName ops)).fault? = none ∧
      warnings = (progress table b docs (sortedByName ops)).warnings ∧
      m = ⟨moduleCode b (progress table b docs (sortedByName ops)).blocks,
        (progress table b docs (sortedByName ops)).report⟩ := by
  unfold generateModule
  cases hfault : (progress table b docs (sortedByName ops)).fault? with
  | some fault => simp [hfault]
  | none => simp [hfault, eq_comm]

end

/-- Whenever `generateModule` gives a module, its report, its warnings and its methods account for
every operation. -/
theorem generateModule_accounts (table : TypeTable) (b : Binding) (ops : List Operation)
    (docs : Text → Option Documentation) (warnings : List Warning) (m : GeneratedModule)
    (h : generateModule table b ops docs = (warnings, .ok m)) :
    ∃ taken, Accounts table b docs ops taken warnings m := by
  obtain ⟨hfault, rfl, rfl⟩ := (generateModule_eq_ok_iff table b docs ops warnings m).mp h
  have hrun := progress_accounts table b docs (sortedByName ops) hfault
  have hsorted := sortedByName_pairwise ops
  -- The operations are taken in the order of their names. What is left are the three facts that
  -- need the emitted and the skipped together, or their order.
  refine ⟨sortedByName ops, sortedByName_perm ops, hsorted, filter_name_sortedByName ops,
    ?_, ?_, ?_, hrun.skipped, hrun.emitted,
    fun op reason => Operation.skipReason?_eq_some_iff table op (docs op.name) reason, ?_,
    ⟨_, rfl, hrun.blocks⟩⟩
  · rw [hrun.emitted, hrun.skipped]
    exact (names_perm table docs (sortedByName ops)).trans ((sortedByName_perm ops).map _)
  · rw [hrun.emitted, List.pairwise_map]
    exact hsorted.filter _
  · rw [hrun.skipped]
    exact leftOut_pairwise table docs hsorted
  · rw [hrun.warnings, hrun.skipped]

/-! ### A sample -/

namespace Sample

/-- An operation without documentation, which `docs` of the sample does not know. -/
def zeros : Operation := { name := "Zeros" }

/-- An internal operation, whose name begins with a low line. -/
def send : Operation := { name := "_Send" }

/-- A documented operation with inputs and an output. -/
def add : Operation :=
  { name := "Add", inputs := [{ name := "x" }, { name := "y" }], outputs := [{ name := "z" }] }

/-- Another operation with the name of the documented one, which is surfaced as well. -/
def typedAdd : Operation := { name := "Add", attributes := [{ name := "T", tag := "type" }] }

/-- An operation with an attribute of type `func`, which no annotation fits. -/
def map : Operation := { name := "Map", attributes := [{ name := "f", tag := "func" }] }

/-- Operations of every kind, out of order, with one name twice. -/
def operations : List Operation := [zeros, send, add, map, typedAdd]

/-- Documentation for the one name that is to be surfaced. -/
def docs (name : Text) : Option Documentation :=
  if name = "Add" then some { name := name, summary := "Sum of `x` and `y`." } else none

/-- The order in which `sortedByName` takes the sample. Operations of one name keep the order in
which they came. -/
theorem sortedByName_operations :
    sortedByName operations = [add, typedAdd, map, zeros, send] := by
  -- The comparisons that merging makes, half by half and then across.
  have hzs : Text.le zeros.name send.name = true := by decide
  have hza : Text.le zeros.name add.name = false := by decide
  have hmt : Text.le map.name typedAdd.name = false := by decide
  have hat : Text.le add.name typedAdd.name = true := by decide
  have hzt : Text.le zeros.name typedAdd.name = false := by decide
  have hzm : Text.le zeros.name map.name = false := by decide
  simp [sortedByName, operations, List.mergeSort, List.MergeSort.Internal.splitInTwo, hzs, hza,
    hmt, hat, hzt, hzm]

end Sample

/-- The sample of `operations` gives a module with two methods, three skips and one warning. -/
theorem generateModule_accounts_sample :
    ∃ warnings m,
      generateModule TypeTable.standard .graph Sample.operations Sample.docs =
        (warnings, .ok m) ∧
      m.report.emitted = ["Add".toList, "Add".toList] ∧
      m.report.skipped.map Prod.fst = ["Map".toList, "Zeros".toList, "_Send".toList] ∧
      warnings = [.operationSkipped "Map" "func" "f"] ∧
      ∃ taken, Accounts TypeTable.standard .graph Sample.docs Sample.operations taken
        warnings m := by
  obtain ⟨warnings, m, hrun, hemitted, hskipped, hwarnings⟩ : ∃ warnings m,
      generateModule TypeTable.standard .graph Sample.operations Sample.docs =
        (warnings, .ok m) ∧
      m.report.emitted = ["Add".toList, "Add".toList] ∧
      m.report.skipped.map Prod.fst = ["Map".toList, "Zeros".toList, "_Send".toList] ∧
      warnings = [.operationSkipped "Map" "func" "f"] := by
    rw [generateModule, Sample.sortedByName_operations]
    exact ⟨_, _, rfl, rfl, rfl, rfl⟩
  exact ⟨warnings, m, hrun, hemitted, hskipped, hwarnings,
    generateModule_accounts TypeTable.standard .graph Sample.operations Sample.docs
      warnings m hrun⟩

end TypedOps
