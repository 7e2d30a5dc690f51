import TypedOps.Proofs.Api.Growth

/-!
# `TypedOps.Proofs.Api.Replay`: a document that is merged again changes nothing

Merging a document a second time begins in a state that its first entries have not seen: later
entries of the same document have been merged behind them. Each of the four rules of merging
takes that up. A scalar, a list and the default of an attribute are the last ones that were set,
and behind the document that is the last one of the document. Names that were added are known the
second time. A description that comes with its extensions is set as a whole.

* `Entry.combined_append_self`: entries that are merged twice amount to what they amount to once.
* `Store.ext_of_get?`: with distinct names, a store is its names in order and what it answers.
* `Store.put?_replayed`: so a document that is merged again leaves the store as it is, and
  whether it parses does not change.

An entry that extends a description without giving one is different: it extends the old one
again each time. `Entry.Repeatable` leaves such entries out.
-/

set_option autoImplicit false

namespace TypedOps.Api

open Catalog (OperationDef)

/-- An entry that names nothing twice in a list and extends no description but its own. Merging such
an entry a second time by `Entry.merge` adds nothing. -/
structure Entry.Repeatable (e : Entry) : Prop where
  distinct : e.NamesDistinct
  described : e.description = [] → e.descriptionBefore = [] ∧ e.descriptionAfter = []

instance (e : Entry) : Decidable e.Repeatable :=
  decidable_of_iff (e.NamesDistinct ∧
      (e.description = [] → e.descriptionBefore = [] ∧ e.descriptionAfter = []))
    ⟨fun h => ⟨h.1, h.2⟩, fun h => ⟨h.distinct, h.described⟩⟩

/-! ### The rules of merging -/

/-- A list that is repeated behind itself has the same last item, also where it is empty and the
last item is in `front`. -/
theorem getLast?_append_append_self {α : Type} (front xs : List α) :
    (front ++ (xs ++ xs)).getLast? = (front ++ xs).getLast? := by
  rw [List.getLast?_append, List.getLast?_append, List.getLast?_append, Option.or_self]

/-- The value of `lastSet` does not change when the same values are set again behind themselves. -/
theorem lastSet_append_append_self {α : Type} [BEq α] (default old : α) (front values : List α) :
    lastSet default old (front ++ (values ++ values)) = lastSet default old (front ++ values) := by
  simp only [lastSet, List.filter_append, getLast?_append_append_self]

/-- Names that are mentioned again are the same names for `eraseDups`, which keeps the first mention
of each. -/
theorem eraseDups_append_append_self (front names : List Text) :
    (front ++ (names ++ names)).eraseDups = (front ++ names).eraseDups := by
  have hknown : names.removeAll (front ++ names) = [] := by
    rw [List.removeAll, List.filter_eq_nil_iff]
    intro n hn
    simp [hn]
  rw [← List.append_assoc, List.eraseDups_append, hknown, List.eraseDups_nil, List.append_nil]

/-- Items that are mentioned again give the same `combinedBy`, if repeating the mentions of one name
changes nothing in what they amount to. -/
theorem combinedBy_append_append_self {α : Type} {name : α → Text}
    {combined : Text → List α → α}
    (h : ∀ n front mentions,
      combined n (front ++ (mentions ++ mentions)) = combined n (front ++ mentions))
    (front mentions : List α) :
    combinedBy name combined (front ++ (mentions ++ mentions)) =
      combinedBy name combined (front ++ mentions) := by
  simp only [combinedBy, List.map_append, eraseDups_append_append_self, List.filter_append, h]

/-- Mentions of an argument that come again change nothing, because each of its fields is a
`lastSet`. -/
theorem ArgumentEntry.combined_append_append_self (n : Text)
    (front mentions : List ArgumentEntry) :
    ArgumentEntry.combined n (front ++ (mentions ++ mentions)) =
      ArgumentEntry.combined n (front ++ mentions) := by
  simp only [ArgumentEntry.combined, List.map_append, lastSet_append_append_self]

/-- Mentions of an attribute that come again change nothing, because each of its fields is a
`lastSet` or the last default that is given. -/
theorem AttributeEntry.combined_append_append_self (n : Text)
    (front mentions : List AttributeEntry) :
    AttributeEntry.combined n (front ++ (mentions ++ mentions)) =
      AttributeEntry.combined n (front ++ mentions) := by
  simp only [AttributeEntry.combined, List.map_append, List.filterMap_append,
    lastSet_append_append_self, getLast?_append_append_self]

/-- The description of a `Repeatable` entry replaces the old one as a whole: its extensions only
come with a text of its own. -/
theorem Entry.Repeatable.describedBy_eq {e : Entry} (h : e.Repeatable) (old : Text) :
    describedBy old e = overwrite [] old (describedBy [] e) := by
  by_cases hsilent : e.description = []
  · -- Without a description there are no extensions either, and the old text stays.
    obtain ⟨hbefore, hafter⟩ := h.described hsilent
    simp only [describedBy, hsilent, hbefore, hafter, if_true]
    rfl
  · have hnew : describedBy old e = describedBy [] e := by
      simp only [describedBy, if_neg hsilent]
    have hset : describedBy [] e ≠ [] := by
      simp only [describedBy, if_neg hsilent]
      split <;> split <;> simp [hsilent]
    rw [hnew, overwrite, if_neg (by simpa using hset)]

/-- The description behind `Repeatable` entries is the last one that was set, so merging them again
sets it to the same text. -/
theorem Entry.foldl_describedBy_eq {given : List Entry} (h : ∀ e ∈ given, e.Repeatable)
    (old : Text) :
    given.foldl describedBy old = lastSet [] old (given.map (describedBy [])) := by
  induction given using List.reverseRecOn with
  | nil => rfl
  | append_singleton given e ih =>
    have hlast : e.Repeatable := h e (by simp)
    have hinit : ∀ e' ∈ given, e'.Repeatable := fun e' he' => h e' (List.mem_append_left [e] he')
    rw [List.foldl_append, List.foldl_cons, List.foldl_nil, ih hinit, hlast.describedBy_eq,
      List.map_append, List.map_singleton, lastSet_concat]

/-! ### Entries -/

/-- For `Repeatable` entries, `Entry.combined` gives the same entry when the list of them comes
twice. -/
theorem Entry.combined_append_self (seed : Entry) {given : List Entry}
    (h : ∀ e ∈ given, e.Repeatable) :
    Entry.combined seed (given ++ given) = Entry.combined seed given := by
  have hboth : ∀ e ∈ given ++ given, e.Repeatable := List.forall_mem_append.mpr ⟨h, h⟩
  have hset : ∀ {α : Type} [BEq α] (default old : α) (values : List α),
      lastSet default old (values ++ values) = lastSet default old values :=
    fun default old values => lastSet_append_append_self default old [] values
  simp only [Entry.combined, Entry.foldl_describedBy_eq hboth, Entry.foldl_describedBy_eq h,
    List.map_append, List.flatMap_append, hset,
    combinedBy_append_append_self ArgumentEntry.combined_append_append_self,
    combinedBy_append_append_self AttributeEntry.combined_append_append_self]

/-- Merged one after the other, and then once more, `Repeatable` entries leave the entry they left
the first time. -/
theorem Entry.foldl_merge_foldl_merge {seed : Entry} (hseed : seed.NamesDistinct)
    {given : List Entry} (h : ∀ e ∈ given, e.Repeatable) :
    given.foldl Entry.merge (given.foldl Entry.merge seed) = given.foldl Entry.merge seed := by
  have hdistinct : ∀ e ∈ given, e.NamesDistinct := fun e he => (h e he).distinct
  have hboth : ∀ e ∈ given ++ given, e.NamesDistinct :=
    List.forall_mem_append.mpr ⟨hdistinct, hdistinct⟩
  calc given.foldl Entry.merge (given.foldl Entry.merge seed)
      = (given ++ given).foldl Entry.merge seed := List.foldl_append.symm
    _ = Entry.combined seed (given ++ given) :=
        Entry.foldl_merge_eq hseed (Entry.introducesOnce_of_namesDistinct hboth seed)
    _ = Entry.combined seed given := Entry.combined_append_self seed h
    _ = given.foldl Entry.merge seed :=
        (Entry.foldl_merge_eq hseed (Entry.introducesOnce_of_namesDistinct hdistinct seed)).symm

/-! ### Stores -/

namespace Store

/-- The names of a store are those for which `get?` has an answer. -/
theorem mem_names_iff (store : Store) (name : Text) :
    name ∈ store.names ↔ store.get? name ≠ none := by
  show name ∈ store.entries.map Prod.fst ↔ store.entries.lookup name ≠ none
  induction store.entries with
  | nil => simp
  | cons first rest ih =>
    obtain ⟨n, e⟩ := first
    rw [List.map_cons, List.mem_cons, List.lookup_cons, ih]
    by_cases h : name = n
    · simp [h]
    · rw [beq_false_of_ne h]
      simp [h]

/-- With distinct names, each entry of a store is what `get?` answers for its name. -/
theorem get?_of_mem {store : Store} (distinct : store.names.Nodup) {p : Text × Entry}
    (hp : p ∈ store.entries) : store.get? p.1 = some p.2 := by
  have hwalk : ∀ entries : List (Text × Entry), (entries.map Prod.fst).Nodup → p ∈ entries →
      entries.lookup p.1 = some p.2 := by
    intro entries
    induction entries with
    | nil => exact fun _ hp => nomatch hp
    | cons first rest ih =>
      intro hnodup hp
      rw [List.map_cons, List.nodup_cons] at hnodup
      rcases List.mem_cons.mp hp with rfl | hp
      · rw [List.lookup_cons, beq_self_eq_true]
      -- A later entry is not shadowed by the first one, as no name comes twice.
      · have hother : p.1 ≠ first.1 := fun heq => hnodup.1 (heq ▸ List.mem_map_of_mem hp)
        rw [List.lookup_cons, beq_false_of_ne hother]
        exact ih hnodup.2 hp
  exact hwalk store.entries distinct hp

/-- A store with distinct names is determined by its names in order and by what `get?` answers for
each. -/
theorem entries_eq {store : Store} (distinct : store.names.Nodup) :
    store.entries = store.names.filterMap fun n => (store.get? n).map (Prod.mk n) := by
  have hown : ∀ p ∈ store.entries, (store.get? p.1).map (Prod.mk p.1) = some p := by
    intro p hp
    rw [get?_of_mem distinct hp]
    rfl
  rw [names, List.filterMap_map]
  exact ((List.filterMap_congr hown).trans (List.filterMap_some)).symm

/-- Two stores with distinct names are equal if they have the same names in the same order and
`get?` answers alike. -/
theorem ext_of_get? {s t : Store} (distinct : s.names.Nodup) (hnames : s.names = t.names)
    (hget : ∀ name, s.get? name = t.get? name) : s = t := by
  have hentries : s.entries = t.entries := by
    rw [entries_eq distinct, entries_eq (hnames ▸ distinct), hnames]
    simp only [hget]
  exact congrArg Store.mk hentries

/-- Entries for operations that have one already are merged by `mergeEntry` without adding a name to
the store. -/
theorem names_foldl_mergeEntry_of_mem {entries : List Entry} {store : Store}
    (h : ∀ e ∈ entries, e.operationName ∈ store.names) :
    (entries.foldl mergeEntry store).names = store.names := by
  have hnew : (entries.map (·.operationName)).filter (· ∉ store.names) = [] := by
    rw [List.filter_eq_nil_iff]
    intro n hn
    obtain ⟨e, he, rfl⟩ := List.mem_map.mp hn
    simpa using h e he
  rw [names_foldl_mergeEntry, hnew, List.eraseDups_nil, List.append_nil]

/-- Behind the entries of a document, every `operationName` that one of them has is a name of the
store. -/
theorem mem_names_foldl_mergeEntry (store : Store) {entries : List Entry} {e : Entry}
    (he : e ∈ entries) : e.operationName ∈ (entries.foldl mergeEntry store).names := by
  have hgiven : e ∈ entries.filter (·.operationName == e.operationName) :=
    List.mem_filter.mpr ⟨he, by simp⟩
  rw [mem_names_iff, get?_foldl_mergeEntry, if_neg fun h => List.ne_nil_of_mem hgiven h.2]
  exact Option.some_ne_none _

/-- A `Keyed` store stays as it is when the same `Repeatable` entries are merged into it again, name
by name through `Entry.foldl_merge_foldl_merge`. -/
theorem foldl_mergeEntry_foldl_mergeEntry {store : Store} (h : store.Keyed)
    (hstore : ∀ name e, store.get? name = some e → e.NamesDistinct) {entries : List Entry}
    (hentries : ∀ e ∈ entries, e.Repeatable) :
    entries.foldl mergeEntry (entries.foldl mergeEntry store) =
      entries.foldl mergeEntry store := by
  have hkeyed : (entries.foldl mergeEntry store).Keyed := by
    clear hstore hentries
    induction entries generalizing store with
    | nil => exact h
    | cons e entries ih => exact ih (h.mergeEntry e)
  have hnames : (entries.foldl mergeEntry (entries.foldl mergeEntry store)).names =
      (entries.foldl mergeEntry store).names :=
    names_foldl_mergeEntry_of_mem fun e he => mem_names_foldl_mergeEntry store he
  refine (ext_of_get? hkeyed.distinct hnames.symm fun name => ?_).symm
  -- What an operation sees of the document, and what it starts from.
  have hgiven : ∀ e ∈ entries.filter (·.operationName == name), e.Repeatable :=
    fun e he => hentries e (List.mem_of_mem_filter he)
  have hseed : ((store.get? name).getD { operationName := name }).NamesDistinct := by
    cases hget : store.get? name with
    | none => exact ⟨List.nodup_nil, List.nodup_nil, List.nodup_nil⟩
    | some e => exact hstore name e hget
  rw [get?_foldl_mergeEntry (entries.foldl mergeEntry store), get?_foldl_mergeEntry store]
  by_cases hnone : store.get? name = none ∧ entries.filter (·.operationName == name) = []
  · rw [if_pos hnone, if_pos ⟨rfl, hnone.2⟩]
  · rw [if_neg hnone, if_neg fun hboth => Option.some_ne_none _ hboth.1, Option.getD_some,
      Entry.foldl_merge_foldl_merge hseed hgiven]

/-- Applying a document twice is applying it once. Take a store that was filled by `ofDefinitions`
from a catalog and refined by any documents, in which no entry names anything twice in a list, and a
document whose entries name nothing twice in a list and extend no description but their own. Merging
it again succeeds just when merging it did, and the store stays as it is, however many entries the
document holds for an operation. -/
theorem put?_replayed (catalog : List OperationDef) (documents : List Text) (text : Text)
    (hstore : ∀ name e, ((ofDefinitions catalog).putAll documents).get? name = some e →
      e.NamesDistinct)
    (hentries : ∀ entries, Document.ofText? text = some entries → ∀ e ∈ entries, e.Repeatable) :
    let store := (ofDefinitions catalog).putAll documents
    (store.putAll [text]).put? text = store.put? text ∧
      store.putAll [text, text] = store.putAll [text] := by
  intro store
  have hkeyed : store.Keyed := (keyed_ofDefinitions catalog).putAll documents
  -- The text parses in either store or in none, so it is enough to look at the entries that it
  -- gives.
  have hput : (store.putAll [text]).put? text = store.put? text := by
    show ((store.put? text).getD store).put? text = store.put? text
    rw [put?, put?]
    cases hparsed : Document.ofText? text with
    | none => rfl
    | some entries =>
      exact congrArg some
        (foldl_mergeEntry_foldl_mergeEntry hkeyed hstore (hentries entries hparsed))
  refine ⟨hput, ?_⟩
  show ((store.putAll [text]).put? text).getD (store.putAll [text]) = store.putAll [text]
  rw [hput]
  show (store.put? text).getD ((store.put? text).getD store) = (store.put? text).getD store
  cases store.put? text <;> rfl

/-- A document with two entries for one operation. The second takes back what the first says of
the summary and of the input `x`, and the input `z` is new. -/
def wavering : Text :=
  Text.unlines
    ["op \x7b graph_op_name: \"Neg\" summary: \"First.\" endpoint \x7b name: \"neg\" \x7d",
      "  description: \"Text.\" description_prefix: \"Note.\"",
      "  in_arg \x7b name: \"x\" description: \"First.\" \x7d in_arg \x7b name: \"z\" \x7d \x7d",
      "op \x7b graph_op_name: \"Neg\" summary: \"Second.\"",
      "  in_arg \x7b name: \"x\" description: \"Second.\" \x7d \x7d"]

/-- The two entries that `Document.ofText?` reads in the document `wavering`. -/
def waveringEntries : List Entry :=
  [{ operationName := "Neg", summary := "First.", endpoints := [{ name := "neg" }],
     description := "Text.", descriptionBefore := "Note.",
     inputs := [{ name := "x", description := "First." }, { name := "z" }] },
    { operationName := "Neg", summary := "Second.",
      inputs := [{ name := "x", description := "Second." }] }]

/-- Merged once or twice into the store of a catalog that knows the input `x`, the document
`wavering` leaves the same entry. -/
theorem put?_replayed_wavering :
    let store := (ofDefinitions sampleCatalog).putAll []
    (∀ name e, store.get? name = some e → e.NamesDistinct) ∧
      (∀ entries, Document.ofText? wavering = some entries → ∀ e ∈ entries, e.Repeatable) ∧
      store.putAll [wavering, wavering] = store.putAll [wavering] ∧
      (store.putAll [wavering, wavering]).get? "Neg" = some
        { operationName := "Neg", summary := "Second.", endpoints := [{ name := "neg" }],
          description := "Note.\nText.",
          inputs := [{ name := "x", description := "Second." }, { name := "z" }] } := by
  intro store
  have hparsed : Document.ofText? wavering = some waveringEntries := by
    -- Written out as characters, the texts are not decoded again at each step.
    rw [wavering, waveringEntries]
    repeat rw [String.toList_ofList]
    decide +kernel
  have hstore : ∀ name e, store.get? name = some e → e.NamesDistinct := by
    intro name e he
    have hseed := namesDistinct_seed (by decide : ∀ op ∈ sampleCatalog, OperationNamesDistinct op)
      name
    have hget : (ofDefinitions sampleCatalog).get? name = some e := he
    rw [hget] at hseed
    exact hseed
  have hentries : ∀ entries, Document.ofText? wavering = some entries →
      ∀ e ∈ entries, e.Repeatable := by
    intro entries h
    rw [hparsed, Option.some.injEq] at h
    subst h
    decide
  obtain ⟨-, htwice⟩ := put?_replayed sampleCatalog [] wavering hstore hentries
  refine ⟨hstore, hentries, htwice, ?_⟩
  have honce : store.putAll [wavering] = waveringEntries.foldl mergeEntry store := by
    rw [putAll_eq_foldl_mergeEntry, parsedEntries]
    simp [hparsed]
  rw [htwice, honce]
  decide

end Store

end TypedOps.Api
