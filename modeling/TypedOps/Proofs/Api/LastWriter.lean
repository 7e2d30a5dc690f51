import TypedOps.Proofs.Api.Merge
import TypedOps.Proofs.Api.Store

/-!
# `TypedOps.Proofs.Api.LastWriter`: the last document that sets a field wins

A store is filled from a catalog and refined by any number of documents, each with any
number of entries. `Entry.combined` says in closed form what an operation ends up with:
every field is the last one that was set, descriptions are replaced and extended along the
way, and arguments are matched by name (`combinedBy`).

* `Entry.foldl_merge_eq`: merging entries one after the other gives the combined one.
* `Store.get?_foldl_mergeEntry`: an operation sees only the entries of its own name.
* `Store.get?_putAll`: both together, over a run that begins with a catalog.

Items are matched by name, so all of this needs names that are distinct in each list of
the catalog and of the documents.
-/

set_option autoImplicit false

namespace TypedOps.Api

open Catalog (OperationDef)

/-! ### What a run amounts to -/

/-- The last value that is not the default, or the old one if there is none. It is what a run of
`overwrite` leaves (`lastSet_concat`). -/
def lastSet {α : Type} [BEq α] (default old : α) (values : List α) : α :=
  (values.filter (· != default)).getLast?.getD old

/-- The argument that some mentions of a name amount to: for each of its fields the last text set,
by `lastSet`. -/
def ArgumentEntry.combined (name : Text) (mentions : List ArgumentEntry) : ArgumentEntry where
  name := name
  renameTo := lastSet [] [] (mentions.map (·.renameTo))
  description := lastSet [] [] (mentions.map (·.description))

/-- The attribute that some mentions of a name amount to: the last text set for each field
(`lastSet`), and the last default that is given. -/
def AttributeEntry.combined (name : Text) (mentions : List AttributeEntry) : AttributeEntry where
  name := name
  renameTo := lastSet [] [] (mentions.map (·.renameTo))
  defaultValue := (mentions.filterMap (·.defaultValue)).getLast?
  description := lastSet [] [] (mentions.map (·.description))

/-- A description after an entry: the `description` of the entry replaces the old one, then one text
goes on the line before and one on the line behind. -/
def describedBy (old : Text) (e : Entry) : Text :=
  let body := if e.description = [] then old else e.description
  let body := if e.descriptionBefore = [] then body else e.descriptionBefore ++ "\n" ++ body
  if e.descriptionAfter = [] then body else body ++ "\n" ++ e.descriptionAfter

/-- The entry that a seed and the entries behind it amount to, said field by field, each by
`lastSet` or its like, and not by a fold of `Entry.merge`. -/
def Entry.combined (seed : Entry) (given : List Entry) : Entry where
  operationName := seed.operationName
  visibility := lastSet 0 seed.visibility (given.map (·.visibility))
  endpoints := lastSet [] seed.endpoints (given.map (·.endpoints))
  inputs := combinedBy (·.name) ArgumentEntry.combined (seed.inputs ++ given.flatMap (·.inputs))
  outputs := combinedBy (·.name) ArgumentEntry.combined (seed.outputs ++ given.flatMap (·.outputs))
  attributes :=
    combinedBy (·.name) AttributeEntry.combined (seed.attributes ++ given.flatMap (·.attributes))
  summary := lastSet [] seed.summary (given.map (·.summary))
  description := given.foldl describedBy seed.description
  descriptionBefore := seed.descriptionBefore
  descriptionAfter := seed.descriptionAfter
  argumentOrder := lastSet [] seed.argumentOrder (given.map (·.argumentOrder))
  deprecationMessage := lastSet [] seed.deprecationMessage (given.map (·.deprecationMessage))
  deprecationVersion := lastSet 0 seed.deprecationVersion (given.map (·.deprecationVersion))

/-- An entry that names nothing twice in its inputs, outputs or attributes, so that `mergeNamed`
finds all there is under a name at once. -/
structure Entry.NamesDistinct (e : Entry) : Prop where
  inputs : (e.inputs.map (·.name)).Nodup
  outputs : (e.outputs.map (·.name)).Nodup
  attributes : (e.attributes.map (·.name)).Nodup

instance (e : Entry) : Decidable e.NamesDistinct :=
  decidable_of_iff ((e.inputs.map (·.name)).Nodup ∧ (e.outputs.map (·.name)).Nodup ∧
      (e.attributes.map (·.name)).Nodup)
    ⟨fun h => ⟨h.1, h.2.1, h.2.2⟩, fun h => ⟨h.inputs, h.outputs, h.attributes⟩⟩

/-- An operation of a catalog that names nothing twice in its inputs, outputs or attributes, so that
the entry which seeds the store for it has `Entry.NamesDistinct`. -/
structure OperationNamesDistinct (op : OperationDef) : Prop where
  inputs : (op.inputs.map (·.name)).Nodup
  outputs : (op.outputs.map (·.name)).Nodup
  attributes : (op.attributes.map (·.name)).Nodup

instance (op : OperationDef) : Decidable (OperationNamesDistinct op) :=
  decidable_of_iff ((op.inputs.map (·.name)).Nodup ∧ (op.outputs.map (·.name)).Nodup ∧
      (op.attributes.map (·.name)).Nodup)
    ⟨fun h => ⟨h.1, h.2.1, h.2.2⟩, fun h => ⟨h.inputs, h.outputs, h.attributes⟩⟩

/-- The condition under which `Entry.combined` is what merging gives: no entry introduces a name
twice in a list, counted from the names of the seed on. -/
structure Entry.IntroducesOnce (seed : Entry) (given : List Entry) : Prop where
  inputs : FreshOnce (seed.inputs.map (·.name)) (given.map (·.inputs.map (·.name)))
  outputs : FreshOnce (seed.outputs.map (·.name)) (given.map (·.outputs.map (·.name)))
  attributes :
    FreshOnce (seed.attributes.map (·.name)) (given.map (·.attributes.map (·.name)))

instance (seed : Entry) (given : List Entry) : Decidable (Entry.IntroducesOnce seed given) :=
  decidable_of_iff
    (FreshOnce (seed.inputs.map (·.name)) (given.map (·.inputs.map (·.name))) ∧
      FreshOnce (seed.outputs.map (·.name)) (given.map (·.outputs.map (·.name))) ∧
      FreshOnce (seed.attributes.map (·.name))
        (given.map (·.attributes.map (·.name))))
    ⟨fun h => ⟨h.1, h.2.1, h.2.2⟩, fun h => ⟨h.inputs, h.outputs, h.attributes⟩⟩

/-- Entries that are `NamesDistinct` each introduce every name once, over any seed. -/
theorem Entry.introducesOnce_of_namesDistinct {given : List Entry}
    (h : ∀ e ∈ given, e.NamesDistinct) (seed : Entry) : Entry.IntroducesOnce seed given where
  inputs := freshOnce_of_nodup (List.forall_mem_map.mpr fun e he => (h e he).inputs) _
  outputs := freshOnce_of_nodup (List.forall_mem_map.mpr fun e he => (h e he).outputs) _
  attributes :=
    freshOnce_of_nodup (List.forall_mem_map.mpr fun e he => (h e he).attributes) _

/-! ### One more entry -/

/-- One more value at the end of `lastSet` wins unless it is the default, which is how `overwrite`
works. -/
theorem lastSet_concat {α : Type} [BEq α] (default old : α) (values : List α) (v : α) :
    lastSet default old (values ++ [v]) = overwrite default (lastSet default old values) v := by
  rw [lastSet, List.filter_append, overwrite]
  cases h : v == default with
  | true =>
    have hnone : [v].filter (· != default) = [] := by simp [bne, h]
    rw [hnone, List.append_nil, if_pos rfl, lastSet]
  | false =>
    have hset : [v].filter (· != default) = [v] := by simp [bne, h]
    rw [hset, List.getLast?_concat, Option.getD_some, if_neg Bool.false_ne_true]

/-- A single value over the default is what `lastSet` gives, whether it is the default or not. -/
theorem lastSet_singleton {α : Type} [BEq α] [LawfulBEq α] (default v : α) :
    lastSet default default [v] = v :=
  (lastSet_concat default default [] v).trans (overwrite_default default v)

/-- Mentions of an argument satisfy `Combines`: merging one more into `ArgumentEntry.combined` is
combining one more. -/
theorem ArgumentEntry.combines :
    Combines ArgumentEntry.name ArgumentEntry.merge ArgumentEntry.combined where
  name_merge _ _ := rfl
  name_combined _ _ := rfl
  singleton x := by
    simp only [ArgumentEntry.combined, List.map_singleton, lastSet_singleton]
  concat n mentions x := by
    simp only [ArgumentEntry.combined, ArgumentEntry.merge, List.map_append, List.map_singleton,
      lastSet_concat]

/-- Mentions of an attribute satisfy `Combines`: merging one more into `AttributeEntry.combined` is
combining one more. -/
theorem AttributeEntry.combines :
    Combines AttributeEntry.name AttributeEntry.merge AttributeEntry.combined where
  name_merge _ _ := rfl
  name_combined _ _ := rfl
  singleton x := by
    -- A default value is there or not, whatever it is.
    obtain ⟨n, renameTo, value, description⟩ := x
    cases value <;> simp [AttributeEntry.combined, lastSet_singleton]
  concat n mentions x := by
    have hvalue : ((mentions ++ [x]).filterMap (·.defaultValue)).getLast? =
        x.defaultValue.or (mentions.filterMap (·.defaultValue)).getLast? := by
      rw [List.filterMap_append, List.getLast?_append]
      cases hx : x.defaultValue <;> simp [hx]
    simp only [AttributeEntry.combined, AttributeEntry.merge, List.map_append,
      List.map_singleton, lastSet_concat, hvalue]

/-- The description that `Entry.merge` computes is `describedBy` the new entry, which the fold in
`Entry.combined` uses. -/
theorem mergedDescription_eq (old : Text) (e : Entry) :
    mergedDescription old e = describedBy old e := by
  simp only [mergedDescription, describedBy, overwrite, beq_iff_eq, List.isEmpty_iff,
    List.append_assoc]
  rfl

/-- The condition `FreshOnce` for the names of one more entry: it may not name twice in a list what
no mention before it names. -/
theorem freshOnce_map_concat {α : Type} (name : α → Text) (items : Entry → List α)
    (seed : List α) (given : List Entry) (new : Entry) :
    FreshOnce (seed.map name) ((given ++ [new]).map fun e => (items e).map name) ↔
      FreshOnce (seed.map name) (given.map fun e => (items e).map name) ∧
        (((items new).map name).filter fun n =>
          n ∉ (seed ++ given.flatMap items).map name).Nodup := by
  rw [List.map_append, List.map_singleton, freshOnce_concat, List.map_append, List.map_flatMap,
    List.flatMap_def]

/-- One more entry is merged into the combination of those before it, field by field through
`Combines.mergeNamed_combinedBy`. -/
theorem Entry.merge_combined {seed new : Entry} {given : List Entry}
    (h : Entry.IntroducesOnce seed (given ++ [new])) :
    (Entry.combined seed given).merge new = Entry.combined seed (given ++ [new]) := by
  have hinputs := ((freshOnce_map_concat ArgumentEntry.name Entry.inputs _ _ _).mp h.inputs).2
  have houtputs := ((freshOnce_map_concat ArgumentEntry.name Entry.outputs _ _ _).mp h.outputs).2
  have hattributes :=
    ((freshOnce_map_concat AttributeEntry.name Entry.attributes _ _ _).mp h.attributes).2
  simp only [Entry.merge, Entry.combined, List.map_append, List.map_singleton, lastSet_concat,
    List.flatMap_append, List.flatMap_singleton, List.foldl_append, List.foldl_cons,
    List.foldl_nil, mergedDescription_eq, ← List.append_assoc,
    ArgumentEntry.combines.mergeNamed_combinedBy hinputs,
    ArgumentEntry.combines.mergeNamed_combinedBy houtputs,
    AttributeEntry.combines.mergeNamed_combinedBy hattributes]

/-- A seed that is `NamesDistinct`, with no entry behind it, is its own combination. -/
theorem Entry.combined_nil {seed : Entry} (h : seed.NamesDistinct) :
    Entry.combined seed [] = seed := by
  simp only [Entry.combined, List.flatMap_nil, List.append_nil,
    ArgumentEntry.combines.combinedBy_of_nodup h.inputs,
    ArgumentEntry.combines.combinedBy_of_nodup h.outputs,
    AttributeEntry.combines.combinedBy_of_nodup h.attributes]
  rfl

/-- The condition `IntroducesOnce` holds for a list without its last entry if it holds for the list,
as the induction over the list needs. -/
theorem Entry.IntroducesOnce.init {seed new : Entry} {given : List Entry}
    (h : Entry.IntroducesOnce seed (given ++ [new])) : Entry.IntroducesOnce seed given where
  inputs := ((freshOnce_map_concat ArgumentEntry.name Entry.inputs _ _ _).mp h.inputs).1
  outputs := ((freshOnce_map_concat ArgumentEntry.name Entry.outputs _ _ _).mp h.outputs).1
  attributes :=
    ((freshOnce_map_concat AttributeEntry.name Entry.attributes _ _ _).mp h.attributes).1

/-- Entries merged one after the other into a seed give `Entry.combined`, by induction from the last
entry on. -/
theorem Entry.foldl_merge_eq {seed : Entry} (hseed : seed.NamesDistinct) {given : List Entry}
    (hgiven : Entry.IntroducesOnce seed given) :
    given.foldl Entry.merge seed = Entry.combined seed given := by
  -- An entry is merged into what those before it amount to, so entries are taken off the end.
  induction given using List.reverseRecOn with
  | nil => exact (Entry.combined_nil hseed).symm
  | append_singleton given e ih =>
    rw [List.foldl_append, ih hgiven.init, List.foldl_cons, List.foldl_nil,
      Entry.merge_combined hgiven]

/-- A combination is `NamesDistinct`, because `combinedBy` has one item for each name. -/
theorem Entry.namesDistinct_combined (seed : Entry) (given : List Entry) :
    (Entry.combined seed given).NamesDistinct where
  inputs := by
    rw [Entry.combined, ArgumentEntry.combines.map_name_combinedBy]
    exact nodup_eraseDups _
  outputs := by
    rw [Entry.combined, ArgumentEntry.combines.map_name_combinedBy]
    exact nodup_eraseDups _
  attributes := by
    rw [Entry.combined, AttributeEntry.combines.map_name_combinedBy]
    exact nodup_eraseDups _

/-- The entry of an operation is `NamesDistinct` if the operation names nothing twice, since the
names are taken over. -/
theorem Entry.namesDistinct_ofDefinition {op : OperationDef} (h : OperationNamesDistinct op) :
    (Entry.ofDefinition op).NamesDistinct where
  inputs := by simpa [Entry.ofDefinition, Function.comp_def] using h.inputs
  outputs := by simpa [Entry.ofDefinition, Function.comp_def] using h.outputs
  attributes := by simpa [Entry.ofDefinition, Function.comp_def] using h.attributes

/-! ### Runs -/

/-- The entries of the documents that parse, in order. A text that is no document for
`Document.ofText?` contributes nothing. -/
def parsedEntries (documents : List Text) : List Entry :=
  (documents.filterMap Document.ofText?).flatten

namespace Store

/-- A run of documents is one fold of `mergeEntry` over the entries of those that parse. -/
theorem putAll_eq_foldl_mergeEntry (store : Store) (documents : List Text) :
    store.putAll documents = (parsedEntries documents).foldl mergeEntry store := by
  induction documents generalizing store with
  | nil => rfl
  | cons text documents ih =>
    show Store.putAll ((store.put? text).getD store) documents = _
    rw [ih, put?, parsedEntries, parsedEntries, List.filterMap_cons]
    cases Document.ofText? text with
    | none => rfl
    | some entries => simp

/-- Merging an entry with `mergeEntry` changes the answer for its operation alone, which gets an
empty entry first if it has none. -/
theorem get?_mergeEntry (store : Store) (new : Entry) (name : Text) :
    (store.mergeEntry new).get? name =
      if new.operationName = name then
        some (((store.get? name).getD { operationName := name }).merge new)
      else store.get? name := by
  rw [mergeEntry, get?_insert]
  by_cases h : new.operationName = name
  · subst h
    rw [if_pos rfl]
  · rw [if_neg h, if_neg (Ne.symm h)]

/-- Of all the entries, an operation sees those of its own name, taken in by `mergeEntry` one after
the other. It has an entry behind them if it had one or gets one. -/
theorem get?_foldl_mergeEntry (store : Store) (entries : List Entry) (name : Text) :
    (entries.foldl mergeEntry store).get? name =
      if store.get? name = none ∧ entries.filter (·.operationName == name) = [] then none
      else some ((entries.filter (·.operationName == name)).foldl Entry.merge
        ((store.get? name).getD { operationName := name })) := by
  induction entries generalizing store with
  | nil => cases h : store.get? name <;> simp [h]
  | cons e entries ih =>
    rw [List.foldl_cons, ih, get?_mergeEntry, List.filter_cons]
    by_cases h : e.operationName = name
    · -- From here on the operation has an entry.
      simp [h]
    · simp [h]

/-- What `ofDefinitions` gives an operation names nothing twice if the catalog does not, and neither
does the empty entry of an unknown operation. -/
theorem namesDistinct_seed {catalog : List OperationDef}
    (hcatalog : ∀ op ∈ catalog, OperationNamesDistinct op) (name : Text) :
    (((ofDefinitions catalog).get? name).getD { operationName := name }).NamesDistinct := by
  rw [get?_ofDefinitions]
  cases hfound : catalog.reverse.find? (·.name == name) with
  | none => exact ⟨List.nodup_nil, List.nodup_nil, List.nodup_nil⟩
  | some op =>
    have hmem : op ∈ catalog := List.mem_reverse.mp (List.mem_of_find?_eq_some hfound)
    exact Entry.namesDistinct_ofDefinition (hcatalog op hmem)

/-- The last document that sets a field wins. Over a run that begins with a catalog, an operation
has an entry if the catalog or a document gives it one, and this entry is the combination
(`Entry.combined`) of the catalog's and of those in the documents that parse. -/
theorem get?_putAll (catalog : List OperationDef) (documents : List Text) (name : Text)
    (hcatalog : ∀ op ∈ catalog, OperationNamesDistinct op)
    (hdocuments : ∀ e ∈ parsedEntries documents, e.NamesDistinct) :
    let seed := (ofDefinitions catalog).get? name
    let given := (parsedEntries documents).filter (·.operationName == name)
    let store := (ofDefinitions catalog).putAll documents
    (store.contains name ↔ (ofDefinitions catalog).contains name ∨ given ≠ []) ∧
      ∀ e, store.get? name = some e →
        e = Entry.combined (seed.getD { operationName := name }) given ∧ e.NamesDistinct := by
  intro seed given store
  -- With distinct names in a document no name is new twice, which is all that `foldl_merge_eq` asks
  -- for.
  have hgiven : Entry.IntroducesOnce (seed.getD { operationName := name }) given :=
    Entry.introducesOnce_of_namesDistinct (fun e he => hdocuments e (List.mem_of_mem_filter he)) _
  have hget : store.get? name =
      if seed = none ∧ given = [] then none
      else some (Entry.combined (seed.getD { operationName := name }) given) := by
    rw [← Entry.foldl_merge_eq (namesDistinct_seed hcatalog name) hgiven, ← get?_foldl_mergeEntry,
      ← putAll_eq_foldl_mergeEntry]
  constructor
  · show (store.get? name).isSome ↔ seed.isSome ∨ given ≠ []
    rw [hget]
    cases seed <;> by_cases hempty : given = [] <;> simp [hempty]
  · intro e he
    rw [hget] at he
    split at he
    · cases he
    · cases he
      exact ⟨rfl, Entry.namesDistinct_combined _ _⟩

/-- A catalog with one operation, whose input `x` has a description already. -/
def sampleCatalog : List OperationDef :=
  [{ name := "Neg", summary := "Old.", inputs := [{ name := "x", description := "Kept." }] }]

/-- Documents of which the second does not parse. The first holds two entries for `Neg`, the third
one. -/
def sampleDocuments : List Text :=
  [Text.unlines
      ["op \x7b graph_op_name: \"Neg\" summary: \"One.\"",
        "  in_arg \x7b name: \"y\" description: \"New.\" \x7d \x7d",
        "op \x7b graph_op_name: \"Neg\" description: \"Text.\" description_suffix: \"End.\" \x7d"],
    "op \x7b graph_op_name: \"Neg\" summary: \"Lost.\"",
    Text.unlines
      ["op \x7b graph_op_name: \"Neg\" summary: \"Two.\"",
        "  in_arg \x7b name: \"x\" rename_to: \"z\" \x7d \x7d"]]

/-- The entries of the `sampleDocuments` that parse, in order. -/
def sampleEntries : List Entry :=
  [{ operationName := "Neg", summary := "One.",
     inputs := [{ name := "y", description := "New." }] },
    { operationName := "Neg", description := "Text.", descriptionAfter := "End." },
    { operationName := "Neg", summary := "Two.", inputs := [{ name := "x", renameTo := "z" }] }]

/-- The run over `sampleDocuments`: the last summary wins, the text that a later entry is silent
about stays, and the new argument `y` stands behind the old one. -/
theorem get?_putAll_sample :
    (∀ op ∈ sampleCatalog, OperationNamesDistinct op) ∧
      (∀ e ∈ parsedEntries sampleDocuments, e.NamesDistinct) ∧
      ((ofDefinitions sampleCatalog).putAll sampleDocuments).get? "Neg" = some
        { operationName := "Neg"
          summary := "Two."
          description := "Text.\nEnd."
          inputs := [{ name := "x", renameTo := "z", description := "Kept." },
            { name := "y", description := "New." }] } := by
  have hparsed : parsedEntries sampleDocuments = sampleEntries := by
    -- Written out as characters, the texts are not decoded again at each step.
    rw [sampleDocuments, sampleEntries]
    repeat rw [String.toList_ofList]
    decide +kernel
  have hcatalog : ∀ op ∈ sampleCatalog, OperationNamesDistinct op := by decide
  have hdocuments : ∀ e ∈ parsedEntries sampleDocuments, e.NamesDistinct := by
    rw [hparsed]
    decide
  obtain ⟨hcontains, hcombined⟩ :=
    get?_putAll sampleCatalog sampleDocuments "Neg" hcatalog hdocuments
  obtain ⟨e, he⟩ := Option.isSome_iff_exists.mp (hcontains.mpr (Or.inl (by decide)))
  refine ⟨hcatalog, hdocuments, ?_⟩
  rw [he, (hcombined e he).1, hparsed]
  decide

end Store

end TypedOps.Api
