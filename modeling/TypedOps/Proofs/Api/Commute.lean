import TypedOps.Proofs.Api.Replay

/-!
# `TypedOps.Proofs.Api.Commute`: documents about different operations commute

A store may hold anything. A document is felt by the operations it has entries for and by no
other, so two documents that have no operation in common can be merged in either order.

* `Store.get?_foldl_mergeEntry_of_not_mem`: entries leave the answer for a name as it is unless
  one of them has the name.
* `Store.get?_foldl_mergeEntry_congr`: what they make of the answer for a name depends on that
  answer alone.
* `Store.size_foldl_mergeEntry`: a store grows by the operations that had no entry.
* `Store.putAll_comm`: so both orders give the same answers and the same size, and a document
  parses behind the other just when it parses in front.

The stores need not be the same in every respect. New operations stand in the order in which the
documents came, and only a listing of all entries would show it.
-/

set_option autoImplicit false

namespace TypedOps.Api

/-- The names of the operations that a document has entries for, in order. A text that is no
document for `Document.ofText?` has none. -/
def Document.operationsNamed (text : Text) : List Text :=
  (parsedEntries [text]).map (·.operationName)

namespace Store

open Document (operationsNamed)

/-! ### Entries -/

/-- What `mergeEntry` makes of the answer for a name depends on that answer alone, not on the rest
of the store. -/
theorem get?_foldl_mergeEntry_congr {s t : Store} {name : Text} (h : s.get? name = t.get? name)
    (entries : List Entry) :
    (entries.foldl mergeEntry s).get? name = (entries.foldl mergeEntry t).get? name := by
  rw [get?_foldl_mergeEntry, get?_foldl_mergeEntry, h]

/-- Entries whose `operationName` is another one leave the answer for a name as it is. -/
theorem get?_foldl_mergeEntry_of_not_mem (store : Store) {entries : List Entry} {name : Text}
    (h : name ∉ entries.map (·.operationName)) :
    (entries.foldl mergeEntry store).get? name = store.get? name := by
  have hnone : entries.filter (·.operationName == name) = [] := filter_key_eq_nil h
  rw [get?_foldl_mergeEntry, hnone]
  cases store.get? name <;> simp

/-- A store grows by the operations that had no entry, each counted once. The induction is on the
entries, and `eraseDups` takes away what the first one has added. -/
theorem size_foldl_mergeEntry (store : Store) (entries : List Entry) :
    (entries.foldl mergeEntry store).size =
      store.size +
        ((entries.map (·.operationName)).filter (store.get? · = none)).eraseDups.length := by
  have hsize : ∀ s : Store, s.size = s.names.length := fun s => (List.length_map _).symm
  have hnew : ∀ n, decide (n ∉ store.names) = decide (store.get? n = none) := by
    intro n
    rw [decide_eq_decide, mem_names_iff, not_not]
  rw [hsize, hsize, names_foldl_mergeEntry, List.length_append]
  simp only [hnew]

/-- Entries for different operations give `SameEntries` in either order: for each name, at most one
of the two groups says anything. -/
theorem sameEntries_foldl_mergeEntry_comm (store : Store) {es fs : List Entry}
    (disjoint : (es.map (·.operationName)).Disjoint (fs.map (·.operationName))) :
    SameEntries (fs.foldl mergeEntry (es.foldl mergeEntry store))
      (es.foldl mergeEntry (fs.foldl mergeEntry store)) := by
  intro name
  by_cases hname : name ∈ es.map (·.operationName)
  · -- Only the first list names it, and it finds the same answer behind the other.
    have hother : name ∉ fs.map (·.operationName) := fun h => disjoint hname h
    rw [get?_foldl_mergeEntry_of_not_mem _ hother]
    exact get?_foldl_mergeEntry_congr (get?_foldl_mergeEntry_of_not_mem store hother).symm es
  · -- The first list is not felt, so the second one decides.
    rw [get?_foldl_mergeEntry_of_not_mem _ hname]
    exact get?_foldl_mergeEntry_congr (get?_foldl_mergeEntry_of_not_mem store hname) fs

/-- Entries for different operations make a store grow as much behind other entries as in front of
them. With `size_foldl_mergeEntry` only the answers at the start matter. -/
theorem size_foldl_mergeEntry_behind (store : Store) {es fs : List Entry}
    (disjoint : (es.map (·.operationName)).Disjoint (fs.map (·.operationName))) :
    (fs.foldl mergeEntry (es.foldl mergeEntry store)).size =
      (es.foldl mergeEntry store).size +
        ((fs.map (·.operationName)).filter (store.get? · = none)).eraseDups.length := by
  rw [size_foldl_mergeEntry (es.foldl mergeEntry store)]
  congr 3
  refine List.filter_congr fun n hn => ?_
  have hother : n ∉ es.map (·.operationName) := fun h => disjoint h hn
  rw [get?_foldl_mergeEntry_of_not_mem store hother]

/-! ### Documents -/

/-- A single document merges the `parsedEntries` of its text, and there are none if it does not
parse. -/
theorem putAll_singleton (store : Store) (text : Text) :
    store.putAll [text] = (parsedEntries [text]).foldl mergeEntry store :=
  putAll_eq_foldl_mergeEntry store [text]

/-- Two documents are merged one after the other, by the definition of `putAll`. -/
theorem putAll_pair (store : Store) (s t : Text) :
    store.putAll [s, t] = (store.putAll [s]).putAll [t] := rfl

/-- Whether a document parses does not depend on the store that is to take it: `put?` reads the text
first. -/
theorem isSome_put? (s t : Store) (text : Text) : (s.put? text).isSome = (t.put? text).isSome := by
  rw [put?, put?, Option.isSome_map, Option.isSome_map]

/-- Documents about different operations commute. Take any store and any two texts that have no
operation in common; either may fail to parse. Each of them is merged by `put?` behind the other
just when it is merged in front, both orders give the same answers for every name, and the store has
the same size. The entry of an operation that a document does not name stays as it is. -/
theorem putAll_comm (store : Store) (s t : Text)
    (disjoint : (operationsNamed s).Disjoint (operationsNamed t)) :
    (((store.putAll [t]).put? s).isSome = (store.put? s).isSome ∧
        ((store.putAll [s]).put? t).isSome = (store.put? t).isSome) ∧
      (∀ name, (store.putAll [s, t]).get? name = (store.putAll [t, s]).get? name ∧
        (store.putAll [s, t]).contains name = (store.putAll [t, s]).contains name) ∧
      (store.putAll [s, t]).size = (store.putAll [t, s]).size ∧
      ∀ text name, name ∉ operationsNamed text →
        (store.putAll [text]).get? name = store.get? name ∧
          (store.putAll [text]).contains name = store.contains name := by
  refine ⟨⟨isSome_put? _ _ s, isSome_put? _ _ t⟩, fun name => ?_, ?_, fun text name hname => ?_⟩
  · have hget : (store.putAll [s, t]).get? name = (store.putAll [t, s]).get? name := by
      simp only [putAll_pair, putAll_singleton]
      exact sameEntries_foldl_mergeEntry_comm store disjoint name
    exact ⟨hget, by rw [contains, contains, hget]⟩
  · -- Both orders add the new operations of the one document and of the other.
    simp only [putAll_pair, putAll_singleton]
    rw [size_foldl_mergeEntry_behind store disjoint,
      size_foldl_mergeEntry_behind store (List.disjoint_symm disjoint), size_foldl_mergeEntry,
      size_foldl_mergeEntry]
    exact Nat.add_right_comm _ _ _
  · have hget : (store.putAll [text]).get? name = store.get? name := by
      rw [putAll_singleton]
      exact get?_foldl_mergeEntry_of_not_mem store hname
    exact ⟨hget, by rw [contains, contains, hget]⟩

/-- A document for an operation that the sample catalog has and for a new one, `Sign`. -/
def negDocument : Text :=
  Text.unlines
    ["op \x7b graph_op_name: \"Neg\" summary: \"Minus.\" \x7d",
      "op \x7b graph_op_name: \"Sign\" summary: \"Sign.\" \x7d"]

/-- The entries that `negDocument` parses to. -/
def negEntries : List Entry :=
  [{ operationName := "Neg", summary := "Minus." }, { operationName := "Sign", summary := "Sign." }]

/-- A document that names another new operation twice, once with a summary and once with a
description. -/
def absDocument : Text :=
  Text.unlines
    ["op \x7b graph_op_name: \"Abs\" summary: \"Size.\" \x7d",
      "op \x7b graph_op_name: \"Abs\" description: \"Always positive.\" \x7d"]

/-- The entries that `absDocument` parses to, one for each time it names the operation. -/
def absEntries : List Entry :=
  [{ operationName := "Abs", summary := "Size." },
    { operationName := "Abs", description := "Always positive." }]

/-- Merged in either order, the two documents leave three operations, and `Neg` keeps what the
catalog says of its input. -/
theorem putAll_comm_sample :
    let store := ofDefinitions sampleCatalog
    (operationsNamed negDocument).Disjoint (operationsNamed absDocument) ∧
      (store.putAll [negDocument, absDocument]).size = 3 ∧
      (store.putAll [absDocument, negDocument]).size = 3 ∧
      (store.putAll [absDocument, negDocument]).get? "Neg" = some
        { operationName := "Neg", summary := "Minus.",
          inputs := [{ name := "x", description := "Kept." }] } ∧
      (store.putAll [negDocument]).get? "Abs" = none := by
  intro store
  -- Written out as characters, the texts are not decoded again at each step.
  have hneg : parsedEntries [negDocument] = negEntries := by
    rw [negDocument, negEntries]
    repeat rw [String.toList_ofList]
    decide +kernel
  have habs : parsedEntries [absDocument] = absEntries := by
    rw [absDocument, absEntries]
    repeat rw [String.toList_ofList]
    decide +kernel
  have hdisjoint : (operationsNamed negDocument).Disjoint (operationsNamed absDocument) := by
    rw [operationsNamed, operationsNamed, hneg, habs, List.disjoint_left]
    decide
  have hboth : store.putAll [negDocument, absDocument] =
      absEntries.foldl mergeEntry (negEntries.foldl mergeEntry store) := by
    rw [putAll_pair, putAll_singleton, putAll_singleton, hneg, habs]
  obtain ⟨-, hget, hsize, hframe⟩ := putAll_comm store negDocument absDocument hdisjoint
  have hthree : (store.putAll [negDocument, absDocument]).size = 3 := by
    rw [hboth]
    decide
  refine ⟨hdisjoint, hthree, hsize.symm.trans hthree, ?_, ?_⟩
  · rw [← (hget "Neg").1, hboth]
    decide
  · have hunnamed : "Abs".toList ∉ operationsNamed negDocument := by
      rw [operationsNamed, hneg]
      decide
    rw [(hframe negDocument "Abs" hunnamed).1]
    rfl

end Store

end TypedOps.Api
