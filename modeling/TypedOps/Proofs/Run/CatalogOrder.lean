import TypedOps.Layout.Format
import TypedOps.Proofs.Api.Store
import TypedOps.Proofs.Emit.Accounting

/-!
# `TypedOps.Proofs.Run.CatalogOrder`: the order of a catalog does not matter

`run` is everything between a decoded catalog with its override documents and the
final text: the store, the merges, the signatures, the module and its layout. Take
two catalogs with the same operations under distinct names, in any two orders.
`run_eq_of_perm` shows that their runs are equal: the same text and report, or the
same fault, and the same warnings in the same order.

The catalog enters a run in two places. The store answers by name, so it is the
same up to `SameEntries`. The operations are sorted by name, and a sorted list
without ties is determined by its members.
-/

set_option autoImplicit false

namespace TypedOps

open Catalog (OperationDef)

/-- A run over a decoded catalog and the texts of its override documents, without the files: the
warnings, and the `format` of the code with the report or the fault that ended the run. -/
def run (table : TypeTable) (binding : Text) (catalog : List OperationDef)
    (overrides : List Text) : List Warning × Except EmitFault (Text × Report) :=
  let store := (Api.Store.ofDefinitions catalog).putAll overrides
  let (warnings, result) :=
    generateModuleNamed table binding (Catalog.signatures catalog) store.documentation?
  (warnings, result.map fun m => (Layout.format m.code, m.report))

/-- What `generateModuleNamed` gives does not depend on the order of the operations when their names
are distinct. -/
theorem generateModuleNamed_eq_of_perm (table : TypeTable) (binding : Text)
    {ops ops' : List Operation} (docs : Text → Option Documentation)
    (distinct : (ops.map (·.name)).Nodup) (perm : ops.Perm ops') :
    generateModuleNamed table binding ops docs = generateModuleNamed table binding ops' docs := by
  unfold generateModuleNamed generateModule
  rw [sortedByName_eq_of_perm distinct perm]

/-- The `signatures` carry the names of their definitions, in the same order. -/
theorem map_name_signatures (catalog : List OperationDef) :
    (Catalog.signatures catalog).map (·.name) = catalog.map (·.name) := by
  rw [Catalog.signatures, List.map_map]
  rfl

/-- To `run` over one catalog in two orders comes to the same, warnings and report included. -/
theorem run_eq_of_perm (table : TypeTable) (binding : Text)
    {catalog catalog' : List OperationDef} (overrides : List Text)
    (distinct : (catalog.map (·.name)).Nodup) (perm : catalog.Perm catalog') :
    run table binding catalog overrides = run table binding catalog' overrides := by
  have hstore := Api.Store.sameEntries_ofDefinitions_of_perm distinct perm
  have hdocs := (hstore.putAll overrides).documentation?
  have hnames : ((Catalog.signatures catalog).map (·.name)).Nodup := by
    rw [map_name_signatures]
    exact distinct
  have hsignatures : (Catalog.signatures catalog).Perm (Catalog.signatures catalog') :=
    perm.map _
  simp only [run]
  rw [hdocs, generateModuleNamed_eq_of_perm table binding _ hnames hsignatures]

/-- Three operations for `run`, one of them internal and one documented by an override only. -/
def sampleCatalog : List OperationDef :=
  [{ name := "Neg", summary := "Minus `x`.", inputs := [{ name := "x", typeAttr := "T" }],
      attributes := [{ name := "T", type := "type" }] },
    { name := "_Recv" }, { name := "Abs", outputs := [{ name := "y" }] }]

/-- The `sampleCatalog` in two orders, with an override that documents `Abs` and one that does not
parse. -/
theorem run_eq_of_perm_sample :
    (sampleCatalog.map (·.name)).Nodup ∧ sampleCatalog.Perm sampleCatalog.reverse ∧
      run TypeTable.standard "typed" sampleCatalog
          ["op \x7b graph_op_name: \"Abs\" summary: \"Magnitude.\" \x7d", "op \x7b"] =
        run TypeTable.standard "typed" sampleCatalog.reverse
          ["op \x7b graph_op_name: \"Abs\" summary: \"Magnitude.\" \x7d", "op \x7b"] := by
  have hdistinct : (sampleCatalog.map (·.name)).Nodup := by decide
  have hperm : sampleCatalog.Perm sampleCatalog.reverse := (List.reverse_perm _).symm
  exact ⟨hdistinct, hperm, run_eq_of_perm TypeTable.standard "typed" _ hdistinct hperm⟩

end TypedOps
