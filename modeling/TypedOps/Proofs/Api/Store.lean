import Mathlib.Data.List.Induction
import Mathlib.Data.List.Nodup
import TypedOps.Api.Store
import TypedOps.Proofs.Support.Lists

/-!
# `TypedOps.Proofs.Api.Store`: what a store answers

A store is asked for entries by name, and that is all a run sees of it. The entries
also have an order, which depends on the catalog; `SameEntries` forgets it.

* `get?_insert`: writing an entry changes the answer for one name only.
* `get?_ofDefinitions`: the store of a catalog answers with the last operation of a
  name. When names are distinct, the order of the catalog does not matter
  (`sameEntries_ofDefinitions_of_perm`).
* `SameEntries.mergeEntry`, `SameEntries.putAll`: two stores with the same answers
  give the same answers after any documents, parsed or not.
-/

set_option autoImplicit false

namespace TypedOps.Api.Store

open Catalog (OperationDef)

/-- Writing an entry with `Store.insert` changes the answer for its name and no other, whether the
name was there or not. -/
theorem get?_insert (store : Store) (name : Text) (entry : Entry) (wanted : Text) :
    (store.insert name entry).get? wanted =
      if wanted = name then some entry else store.get? wanted :=
  lookup_walk (insert.go name entry) rfl (fun _ _ _ => rfl) wanted store.entries

/-- The store of a catalog answers with the last operation of a name: `ofDefinitions` inserts from
the front, so later ones replace earlier ones. -/
theorem get?_ofDefinitions (operations : List OperationDef) (name : Text) :
    (ofDefinitions operations).get? name =
      (operations.reverse.find? (·.name == name)).map Entry.ofDefinition := by
  -- The store is filled from the front, and the last entry written wins, so the
  -- induction takes operations off the end.
  induction operations using List.reverseRecOn with
  | nil => rfl
  | append_singleton operations op ih =>
    rw [ofDefinitions, List.foldl_append, List.foldl_cons, List.foldl_nil, get?_insert,
      List.reverse_append, List.reverse_singleton, List.singleton_append, List.find?_cons]
    by_cases h : name = op.name
    · simp [h]
    · rw [if_neg h, beq_false_of_ne (Ne.symm h)]
      exact ih

/-! ### Stores with the same answers -/

/-- Two stores that answer alike for every name. Their entries may still stand in a different order,
which `Store.get?` cannot tell. -/
def SameEntries (s t : Store) : Prop := ∀ name, s.get? name = t.get? name

/-- Merging one entry keeps `SameEntries`: what `mergeEntry` writes depends on the old answer for
one name. -/
theorem SameEntries.mergeEntry {s t : Store} (h : SameEntries s t) (new : Entry) :
    SameEntries (s.mergeEntry new) (t.mergeEntry new) := by
  intro name
  unfold Store.mergeEntry
  rw [get?_insert, get?_insert, h new.operationName, h name]

/-- Merging the entries of a document keeps `SameEntries`, entry by entry. -/
theorem SameEntries.foldl_mergeEntry {s t : Store} (h : SameEntries s t)
    (entries : List Entry) :
    SameEntries (entries.foldl Store.mergeEntry s) (entries.foldl Store.mergeEntry t) := by
  induction entries generalizing s t with
  | nil => exact h
  | cons entry entries ih => exact ih (h.mergeEntry entry)

/-- Documents merged by `put?`, in order. One that does not parse leaves the store as it was, as the
run does after its warning. -/
def putAll (store : Store) (documents : List Text) : Store :=
  documents.foldl (fun store text => (store.put? text).getD store) store

/-- Merging documents keeps `SameEntries`. Whether a document parses does not depend on the store,
so both stores take the same ones. -/
theorem SameEntries.putAll {s t : Store} (h : SameEntries s t) (documents : List Text) :
    SameEntries (s.putAll documents) (t.putAll documents) := by
  induction documents generalizing s t with
  | nil => exact h
  | cons text documents ih =>
    have hput : SameEntries ((s.put? text).getD s) ((t.put? text).getD t) := by
      unfold put?
      cases Document.ofText? text with
      | none => exact h
      | some entries => exact h.foldl_mergeEntry entries
    exact ih hput

/-- Stores with `SameEntries` give the same documentation for every name, since `documentation?` is
made from the answer of `get?`. -/
theorem SameEntries.documentation? {s t : Store} (h : SameEntries s t) :
    s.documentation? = t.documentation? := by
  funext name
  unfold Store.documentation?
  rw [h name]

/-- In a catalog with distinct names, `find?` by a name gives exactly the operation that has it,
wherever it stands. -/
theorem find?_name_eq_some_iff {operations : List OperationDef}
    (distinct : (operations.map (·.name)).Nodup) (name : Text) (op : OperationDef) :
    operations.find? (·.name == name) = some op ↔ op ∈ operations ∧ op.name = name := by
  constructor
  · intro h
    exact ⟨List.mem_of_find?_eq_some h, by simpa using List.find?_some h⟩
  · rintro ⟨hmem, rfl⟩
    cases hfound : operations.find? (·.name == op.name) with
    | none =>
      have habsent := List.find?_eq_none.mp hfound op hmem
      simp at habsent
    | some other =>
      have hname : other.name = op.name := by simpa using List.find?_some hfound
      rw [List.inj_on_of_nodup_map distinct (List.mem_of_find?_eq_some hfound) hmem hname]

/-- A catalog with distinct names gives a store with `SameEntries` in any order, because the last
operation of a name is then the only one. -/
theorem sameEntries_ofDefinitions_of_perm {catalog catalog' : List OperationDef}
    (distinct : (catalog.map (·.name)).Nodup) (perm : catalog.Perm catalog') :
    SameEntries (ofDefinitions catalog) (ofDefinitions catalog') := by
  intro name
  rw [get?_ofDefinitions, get?_ofDefinitions]
  have hreversed : catalog.reverse.Perm catalog'.reverse :=
    (catalog.reverse_perm.trans perm).trans catalog'.reverse_perm.symm
  have hdistinct : (catalog.reverse.map (·.name)).Nodup :=
    (catalog.reverse_perm.map _).nodup_iff.mpr distinct
  have hdistinct' : (catalog'.reverse.map (·.name)).Nodup :=
    (hreversed.map _).nodup_iff.mp hdistinct
  -- Both searches look for the same thing among the same members, and there is one.
  congr 1
  refine Option.ext fun op => ?_
  rw [find?_name_eq_some_iff hdistinct, find?_name_eq_some_iff hdistinct', hreversed.mem_iff]

end TypedOps.Api.Store
