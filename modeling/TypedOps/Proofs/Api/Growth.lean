import TypedOps.Proofs.Api.LastWriter
import TypedOps.Proofs.Operation.Surface

/-!
# `TypedOps.Proofs.Api.Growth`: documents only add to the public surface

Whatever a document holds, merging it takes nothing away: entries stay, in their order and
under the name of their operation, and a summary that is there stays there. An operation is
kept out of the public surface for its name, for its attributes, or because it has no summary,
and a document can change the last only.

* `Store.Keyed`: every entry stands under the name of its operation, and no two stand under
  one. The store of a catalog is keyed, and merging keeps it so.
* `Store.Extends`: one store has all entries of another, with a summary wherever it has one.
  A store is extended by each entry that is merged, and so by any run.
* `Store.summarised_putAll_iff`: over a run an operation has a summary just when it had one or
  an entry of a document that parses gives it one.
* `Store.skipReason?_putAll`: what this means for the operations of a catalog.
-/

set_option autoImplicit false

namespace TypedOps

open Catalog (OperationDef)

/-- How `skipReason?` answers for two documentations, the second `Summarised` where the first is: it
is the same answer, or the first operation was `undocumented` and the second is let through. -/
theorem Operation.skipReason?_cases (table : TypeTable) (op : Operation)
    {doc doc' : Option Documentation} (h : Summarised doc → Summarised doc') :
    op.skipReason? table doc' = op.skipReason? table doc ∨
      op.skipReason? table doc = some .undocumented ∧ op.skipReason? table doc' = none := by
  cases hreason : op.skipReason? table doc with
  | none =>
    obtain ⟨hvisible, hfit, hsummary⟩ := (skipReason?_eq_none_iff table op doc).mp hreason
    exact .inl ((skipReason?_eq_none_iff table op doc').mpr ⟨hvisible, hfit, h hsummary⟩)
  | some reason =>
    cases (skipReason?_eq_some_iff table op doc reason).mp hreason with
    | internal hinternal =>
      exact .inl ((skipReason?_eq_some_iff table op doc' _).mpr (.internal hinternal))
    | unmapped hvisible hplace hfirst hunfit =>
      exact .inl ((skipReason?_eq_some_iff table op doc' _).mpr
        (.unmapped hvisible hplace hfirst hunfit))
    -- Only here the documentations can make a difference, as the other reasons come before it.
    | undocumented hvisible hfit hsilent =>
      by_cases hsummary : Summarised doc'
      · exact .inr ⟨rfl, (skipReason?_eq_none_iff table op doc').mpr
          ⟨hvisible, hfit, hsummary⟩⟩
      · exact .inl ((skipReason?_eq_some_iff table op doc' _).mpr
          (.undocumented hvisible hfit hsummary))

namespace Api

/-- An entry that `Entry.merge` gives has a summary just when one of the two entries had one: an
empty summary does not overwrite. -/
theorem Entry.summary_merge_ne_nil_iff (old new : Entry) :
    (old.merge new).summary ≠ [] ↔ old.summary ≠ [] ∨ new.summary ≠ [] := by
  show overwrite [] old.summary new.summary ≠ [] ↔ _
  rw [overwrite]
  split
  · next hempty => simp [eq_of_beq hempty]
  · next hset =>
    have hset : new.summary ≠ [] := by simpa using hset
    simp [hset]

namespace Store

/-- The operations with an entry, in the order in which they came. It is the list that
`distinctNames` and the order of a replay speak of. -/
def names (store : Store) : List Text := store.entries.map Prod.fst

/-- Every entry stands under the `operationName` it carries, and no two stand under one name. All
stores that the program builds are of this kind. -/
structure Keyed (store : Store) : Prop where
  named : ∀ p ∈ store.entries, p.2.operationName = p.1
  distinct : store.names.Nodup

/-- The store `t` has the entries of `s`, in their order and in front of any others, and a summary
wherever `s` has one. A run of documents can only move a store along this order. -/
structure Extends (s t : Store) : Prop where
  names : s.names <+: t.names
  entries : ∀ name e, s.get? name = some e →
    ∃ e', t.get? name = some e' ∧ (e.summary ≠ [] → e'.summary ≠ [])

/-! ### One entry -/

/-- Writing with `Store.insert` adds a name behind the others unless it is there, in which case the
names stay as they are. -/
theorem names_insert (store : Store) (name : Text) (entry : Entry) :
    (store.insert name entry).names =
      if name ∈ store.names then store.names else store.names ++ [name] := by
  -- The walk of `insert` goes on below the entries, so the induction is on these and not on the
  -- store.
  have hwalk : ∀ entries : List (Text × Entry), (insert.go name entry entries).map Prod.fst =
      if name ∈ entries.map Prod.fst then entries.map Prod.fst
      else entries.map Prod.fst ++ [name] := by
    intro entries
    induction entries with
    | nil => rfl
    | cons first rest ih =>
      obtain ⟨n, e⟩ := first
      rw [insert.go]
      by_cases hn : n = name
      · simp [hn]
      · simp only [beq_false_of_ne hn, Bool.false_eq_true, if_false, List.map_cons, ih,
          List.mem_cons, Ne.symm hn, false_or]
        split <;> rfl
  exact hwalk store.entries

/-- Every entry behind `Store.insert` is the one that was written or one that was there before. -/
theorem mem_insert {store : Store} {name : Text} {entry : Entry} {p : Text × Entry}
    (h : p ∈ (store.insert name entry).entries) : p = (name, entry) ∨ p ∈ store.entries := by
  have hwalk : ∀ entries : List (Text × Entry), p ∈ insert.go name entry entries →
      p = (name, entry) ∨ p ∈ entries := by
    intro entries
    induction entries with
    | nil => exact fun h => .inl (List.mem_singleton.mp h)
    | cons first rest ih =>
      obtain ⟨n, e⟩ := first
      rw [insert.go]
      intro h
      split at h
      · rcases List.mem_cons.mp h with rfl | h
        · exact .inl rfl
        · exact .inr (List.mem_cons_of_mem _ h)
      · rcases List.mem_cons.mp h with rfl | h
        · exact .inr List.mem_cons_self
        · exact (ih h).imp_right (List.mem_cons_of_mem _)
  exact hwalk store.entries h

/-- An entry that `Store.get?` finds is an item of the store under the name that was asked for. -/
theorem mem_entries_of_get? {store : Store} {name : Text} {e : Entry}
    (h : store.get? name = some e) : (name, e) ∈ store.entries := by
  obtain ⟨before, after, hentries, -⟩ := List.lookup_eq_some_iff.mp h
  simp [hentries]

/-- Writing with `Store.insert` keeps a store `Keyed` if the entry carries the name it is written
under. -/
theorem Keyed.insert {store : Store} (h : store.Keyed) {name : Text} {entry : Entry}
    (hname : entry.operationName = name) : (store.insert name entry).Keyed where
  named p hp := by
    rcases mem_insert hp with rfl | hp
    · exact hname
    · exact h.named p hp
  distinct := by
    rw [names_insert]
    split
    · exact h.distinct
    · next hnew =>
      refine List.nodup_append.mpr ⟨h.distinct, List.nodup_singleton name, ?_⟩
      rintro n hn m hm rfl
      exact hnew (List.mem_singleton.mp hm ▸ hn)

/-- Merging with `mergeEntry` keeps a store `Keyed`, since `Entry.merge` keeps the name of the old
entry and an empty entry gets the name of the new one. -/
theorem Keyed.mergeEntry {store : Store} (h : store.Keyed) (new : Entry) :
    (store.mergeEntry new).Keyed := by
  refine h.insert ?_
  show ((store.get? new.operationName).getD _).operationName = new.operationName
  cases hold : store.get? new.operationName with
  | none => rfl
  | some old => exact h.named _ (mem_entries_of_get? hold)

/-- The order `Extends` is reflexive, which is the base of the induction over a run of documents. -/
theorem Extends.refl (s : Store) : s.Extends s :=
  ⟨List.prefix_refl _, fun _ e h => ⟨e, h, id⟩⟩

/-- The order `Extends` is transitive, which carries the induction over a run of documents from one
entry to the next. -/
theorem Extends.trans {s t u : Store} (h : s.Extends t) (h' : t.Extends u) : s.Extends u where
  names := h.names.trans h'.names
  entries name e he := by
    obtain ⟨e', he', hsummary⟩ := h.entries name e he
    obtain ⟨e'', he'', hsummary'⟩ := h'.entries name e' he'
    exact ⟨e'', he'', fun hne => hsummary' (hsummary hne)⟩

/-- One `mergeEntry` moves a store along `Extends`: no name goes away, and no summary becomes empty.
-/
theorem extends_mergeEntry (store : Store) (new : Entry) :
    store.Extends (store.mergeEntry new) where
  names := by
    rw [Store.mergeEntry, names_insert]
    split
    · exact List.prefix_refl _
    · exact List.prefix_append _ _
  entries name e he := by
    rw [get?_mergeEntry, he]
    split
    · exact ⟨_, rfl, fun hne => (Entry.summary_merge_ne_nil_iff e new).mpr (.inl hne)⟩
    · exact ⟨e, rfl, id⟩

/-! ### Runs -/

/-- The store of a catalog is `Keyed`, since `Entry.ofDefinition` takes over the name of its
operation. -/
theorem keyed_ofDefinitions (catalog : List OperationDef) : (ofDefinitions catalog).Keyed := by
  induction catalog using List.reverseRecOn with
  | nil => exact ⟨by simp [ofDefinitions], List.nodup_nil⟩
  | append_singleton catalog op ih =>
    rw [ofDefinitions, List.foldl_append]
    exact ih.insert rfl

/-- Every operation of a catalog has an entry in the store `ofDefinitions` makes of it, so no skip
for want of an entry can occur. -/
theorem contains_ofDefinitions {catalog : List OperationDef} {op : OperationDef}
    (h : op ∈ catalog) : (ofDefinitions catalog).contains op.name = true := by
  rw [contains, get?_ofDefinitions, Option.isSome_map, List.find?_isSome]
  exact ⟨op, List.mem_reverse.mpr h, by simp⟩

/-- Any run of documents keeps a store `Keyed`, by induction over the entries of those that parse.
-/
theorem Keyed.putAll {store : Store} (h : store.Keyed) (documents : List Text) :
    (store.putAll documents).Keyed := by
  rw [putAll_eq_foldl_mergeEntry]
  induction parsedEntries documents generalizing store with
  | nil => exact h
  | cons e entries ih => exact ih (h.mergeEntry e)

/-- Any run of documents moves a store along `Extends`, one entry after the other by
`extends_mergeEntry`. -/
theorem extends_putAll (store : Store) (documents : List Text) :
    store.Extends (store.putAll documents) := by
  rw [putAll_eq_foldl_mergeEntry]
  induction parsedEntries documents generalizing store with
  | nil => exact .refl store
  | cons e entries ih => exact (extends_mergeEntry store e).trans (ih (store.mergeEntry e))

/-- The `names` of a store behind merged entries are the old ones, then those of operations that had
none, each once and in the order in which the entries name them. -/
theorem names_foldl_mergeEntry (store : Store) (entries : List Entry) :
    (entries.foldl mergeEntry store).names =
      store.names ++ ((entries.map (·.operationName)).filter (· ∉ store.names)).eraseDups := by
  induction entries generalizing store with
  | nil => simp
  | cons e entries ih =>
    -- One entry adds its name at most once, which is what `names_insert` says of the store that it
    -- gets.
    have hstep : (store.mergeEntry e).names =
        if e.operationName ∈ store.names then store.names
        else store.names ++ [e.operationName] := by
      rw [mergeEntry, names_insert]
    rw [List.foldl_cons, ih, hstep, List.map_cons]
    by_cases hknown : e.operationName ∈ store.names
    · rw [if_pos hknown, List.filter_cons_of_neg (by simpa using hknown)]
    · -- The first mention takes the place, and further ones are known from then on.
      rw [if_neg hknown, List.filter_cons_of_pos (by simpa using hknown), List.eraseDups_cons,
        List.filter_filter, List.append_assoc, List.singleton_append]
      congr 3
      refine List.filter_congr fun n _ => ?_
      by_cases hn : n = e.operationName <;> simp [hn]

/-- An operation is `Summarised` behind `mergeEntry` just when it was before or the entry is its own
and has a summary. -/
theorem summarised_mergeEntry_iff (store : Store) (new : Entry) (name : Text) :
    Operation.Summarised ((store.mergeEntry new).documentation? name) ↔
      Operation.Summarised (store.documentation? name) ∨
        new.operationName = name ∧ new.summary ≠ [] := by
  have hsummarised : ∀ e? : Option Entry, Operation.Summarised (e?.map Entry.documentation) ↔
      (e?.getD { operationName := name }).summary ≠ [] := by
    intro e?
    cases e? with
    | none => simp [Operation.Summarised]
    | some e => simp [Operation.Summarised, Entry.documentation]
  rw [documentation?, documentation?, hsummarised, hsummarised, get?_mergeEntry]
  by_cases hname : new.operationName = name
  · rw [if_pos hname, Option.getD_some, Entry.summary_merge_ne_nil_iff]
    simp [hname]
  · rw [if_neg hname]
    simp [hname]

/-- An operation is `Summarised` behind a run just when it was before or an entry of a document that
parses gives it a summary. -/
theorem summarised_putAll_iff (store : Store) (documents : List Text) (name : Text) :
    Operation.Summarised ((store.putAll documents).documentation? name) ↔
      Operation.Summarised (store.documentation? name) ∨
        ∃ e ∈ parsedEntries documents, e.operationName = name ∧ e.summary ≠ [] := by
  rw [putAll_eq_foldl_mergeEntry]
  induction parsedEntries documents generalizing store with
  | nil => simp
  | cons e entries ih =>
    rw [List.foldl_cons, ih, summarised_mergeEntry_iff, List.exists_mem_cons_iff, or_assoc]

/-- Take any catalog and any documents. What `skipReason?` says of an operation of the catalog
behind the documents is what it said before, unless that was want of a summary: then the operation
is let through just when an entry of a document that parses gives it one. All along, every entry
stands under the name of its operation, and documents that follow take no entry and no summary away.
-/
theorem skipReason?_putAll (table : TypeTable) (catalog : List OperationDef)
    (documents later : List Text) :
    let seeded := ofDefinitions catalog
    let store := seeded.putAll documents
    (∀ op ∈ catalog,
      let before := op.signature.skipReason? table (seeded.documentation? op.name)
      let after := op.signature.skipReason? table (store.documentation? op.name)
      seeded.contains op.name = true ∧
        (after = before ∨ before = some .undocumented ∧ after = none) ∧
        (before = some .undocumented → (after = none ↔
          ∃ e ∈ parsedEntries documents, e.operationName = op.name ∧ e.summary ≠ []))) ∧
      store.Keyed ∧ store.Extends (store.putAll later) := by
  intro seeded store
  refine ⟨fun op hop => ?_, (keyed_ofDefinitions catalog).putAll documents,
    extends_putAll store later⟩
  intro before after
  have hsummary : Operation.Summarised (store.documentation? op.name) ↔
      Operation.Summarised (seeded.documentation? op.name) ∨
        ∃ e ∈ parsedEntries documents, e.operationName = op.name ∧ e.summary ≠ [] :=
    summarised_putAll_iff seeded documents op.name
  refine ⟨contains_ofDefinitions hop,
    op.signature.skipReason?_cases table fun h => hsummary.mpr (.inl h), fun hbefore => ?_⟩
  -- An operation that lacks a summary lacks nothing else.
  cases (Operation.skipReason?_eq_some_iff table op.signature _ _).mp hbefore with
  | undocumented hvisible hfit hsilent =>
    show op.signature.skipReason? table (store.documentation? op.name) = none ↔ _
    rw [Operation.skipReason?_eq_none_iff, hsummary]
    exact ⟨fun h => h.2.2.resolve_left hsilent, fun h => ⟨hvisible, hfit, .inr h⟩⟩

/-- An operation that `skipReason?` keeps out for want of a summary only. -/
def silentNeg : OperationDef := { name := "Neg" }

/-- An operation with an attribute of type `func`, which no annotation fits, so no summary can let
it through. -/
def silentMap : OperationDef := { name := "Map", attributes := [{ name := "f", type := "func" }] }

/-- Documents that give both operations a summary, and one between them that `put?` does not take,
since it does not parse. -/
def summaryDocuments : List Text :=
  ["op \x7b graph_op_name: \"Map\" summary: \"Each.\" \x7d", "op \x7b",
    "op \x7b graph_op_name: \"Neg\" summary: \"Minus.\" \x7d"]

/-- Behind `summaryDocuments`, the operation `Neg` is let through, and `Map` is still kept out for
its attribute. -/
theorem skipReason?_putAll_silent :
    let seeded := ofDefinitions [silentNeg, silentMap]
    let store := seeded.putAll summaryDocuments
    silentNeg ∈ [silentNeg, silentMap] ∧
      silentNeg.signature.skipReason? TypeTable.standard (seeded.documentation? "Neg") =
        some .undocumented ∧
      silentNeg.signature.skipReason? TypeTable.standard (store.documentation? "Neg") = none ∧
      silentMap.signature.skipReason? TypeTable.standard (store.documentation? "Map") =
        silentMap.signature.skipReason? TypeTable.standard (seeded.documentation? "Map") ∧
      store.Keyed := by
  intro seeded store
  have hparsed : parsedEntries summaryDocuments =
      [{ operationName := "Map", summary := "Each." },
        { operationName := "Neg", summary := "Minus." }] := by
    -- Written out as characters, the texts are not decoded again at each step.
    rw [summaryDocuments]
    repeat rw [String.toList_ofList]
    decide +kernel
  obtain ⟨hreasons, hkeyed, -⟩ :=
    skipReason?_putAll TypeTable.standard [silentNeg, silentMap] summaryDocuments []
  obtain ⟨-, -, hneg⟩ := hreasons silentNeg List.mem_cons_self
  obtain ⟨-, hmap, -⟩ := hreasons silentMap (List.mem_cons_of_mem _ List.mem_cons_self)
  have hbefore : silentNeg.signature.skipReason? TypeTable.standard
      (seeded.documentation? "Neg") = some .undocumented := rfl
  have hafter := (hneg hbefore).mpr
    ⟨{ operationName := "Neg", summary := "Minus." }, by simp [hparsed], rfl, by decide⟩
  refine ⟨List.mem_cons_self, hbefore, hafter, ?_, hkeyed⟩
  rcases hmap with hsame | ⟨hundocumented, -⟩
  · exact hsame
  · cases hundocumented

end Store

end Api

end TypedOps
