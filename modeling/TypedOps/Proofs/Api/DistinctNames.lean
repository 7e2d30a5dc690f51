import TypedOps.Proofs.Api.LastWriter

/-!
# `TypedOps.Proofs.Api.DistinctNames`: when the last description is the one that is found

Merging changes the last item of a name, and documentation is looked up from the front. The
two agree as long as names are distinct. An entry of a document keeps them so unless it
names something twice that nothing before it names: then both mentions are added, since
what is known is settled before the entry is merged.

* `namesDistinct_putAll_iff`: over a run that begins with a catalog, the names of an
  operation are distinct just when each entry introduces its names once. In that case
  looking a name up gives its last description.
* `describe_merge_of_repeated`: a name that was introduced twice keeps the description it
  is found with, whatever is merged behind it.
* `get?_putAll_repeatingDocument`: a document of this kind, and a later description that is
  lost.
-/

set_option autoImplicit false

namespace TypedOps.Api

open Catalog (OperationDef)

/-! ### Distinct names -/

/-- Merging entries into a seed keeps names distinct just when each of them introduces its names
once (`Entry.IntroducesOnce`). -/
theorem Entry.namesDistinct_foldl_merge_iff {seed : Entry} (hseed : seed.NamesDistinct)
    (given : List Entry) :
    (given.foldl Entry.merge seed).NamesDistinct ↔ Entry.IntroducesOnce seed given := by
  constructor
  · intro h
    induction given using List.reverseRecOn with
    | nil => exact ⟨trivial, trivial, trivial⟩
    | append_singleton given e ih =>
      rw [List.foldl_append, List.foldl_cons, List.foldl_nil] at h
      obtain ⟨hinputs, hnewInputs⟩ :=
        (nodup_mergeNamed_iff ArgumentEntry.combines.name_merge _ _).mp h.inputs
      obtain ⟨houtputs, hnewOutputs⟩ :=
        (nodup_mergeNamed_iff ArgumentEntry.combines.name_merge _ _).mp h.outputs
      obtain ⟨hattributes, hnewAttributes⟩ :=
        (nodup_mergeNamed_iff AttributeEntry.combines.name_merge _ _).mp h.attributes
      have hgiven : Entry.IntroducesOnce seed given := ih ⟨hinputs, houtputs, hattributes⟩
      -- Up to here names are distinct, so those that are known are those mentioned so far.
      rw [Entry.foldl_merge_eq hseed hgiven] at hnewInputs hnewOutputs hnewAttributes
      simp only [Entry.combined, ArgumentEntry.combines.map_name_combinedBy,
        AttributeEntry.combines.map_name_combinedBy, List.mem_eraseDups]
        at hnewInputs hnewOutputs hnewAttributes
      exact ⟨(freshOnce_map_concat _ _ _ _ _).mpr ⟨hgiven.inputs, hnewInputs⟩,
        (freshOnce_map_concat _ _ _ _ _).mpr ⟨hgiven.outputs, hnewOutputs⟩,
        (freshOnce_map_concat _ _ _ _ _).mpr ⟨hgiven.attributes, hnewAttributes⟩⟩
  · intro hgiven
    rw [Entry.foldl_merge_eq hseed hgiven]
    exact Entry.namesDistinct_combined seed given

/-! ### Looking a name up -/

/-- The last description that is given for a name, or an empty one. It is what a reader of the
documents expects `describe` to find. -/
def lastDescription (mentions : List NamedDescription) (name : Text) : Text :=
  lastSet [] [] ((mentions.filter (·.name == name)).map (·.description))

/-- Looking a name up in `combinedBy` gives the last description among its mentions, for arguments
and attributes alike. -/
theorem Combines.describe_combinedBy {α : Type} {name : α → Text} {merge : α → α → α}
    {combined : Text → List α → α} (h : Combines name merge combined) (description : α → Text)
    (hdescription : ∀ n mentions,
      description (combined n mentions) = lastSet [] [] (mentions.map description))
    (mentions : List α) (n : Text) :
    describe ((combinedBy name combined mentions).map fun x => ⟨name x, description x⟩) n =
      lastDescription (mentions.map fun x => ⟨name x, description x⟩) n := by
  have hmentions : lastDescription (mentions.map fun x => ⟨name x, description x⟩) n =
      lastSet [] [] ((mentions.filter fun x => name x == n).map description) := by
    rw [lastDescription, List.filter_map, List.map_map]
    rfl
  have hfound : describe ((combinedBy name combined mentions).map fun x =>
      ⟨name x, description x⟩) n =
        (((combinedBy name combined mentions).find? fun x => name x == n).map description).getD
          [] := by
    rw [describe, List.find?_map, Option.map_map]
    rfl
  rw [hfound, hmentions, h.find?_combinedBy]
  split
  · exact hdescription _ _
  · next hnone =>
    -- A name that nobody mentions has no description.
    rw [filter_key_eq_nil hnone]
    rfl

/-- Looking names up in `Entry.combined` gives the last description of each, in all three lists of
the entry. -/
theorem Entry.describe_combined (seed : Entry) (given : List Entry) (a : Text) :
    describe (Entry.combined seed given).documentation.inputs a =
        lastDescription ((seed :: given).flatMap (·.documentation.inputs)) a ∧
      describe (Entry.combined seed given).documentation.outputs a =
        lastDescription ((seed :: given).flatMap (·.documentation.outputs)) a ∧
      describe (Entry.combined seed given).documentation.attributes a =
        lastDescription ((seed :: given).flatMap (·.documentation.attributes)) a := by
  -- All three lists are looked up in the same way: the descriptions of the mentions are the
  -- mentions of the descriptions.
  have hmentions : ∀ {α : Type} (shown : α → NamedDescription) (items : Entry → List α),
      (items seed ++ given.flatMap items).map shown =
        (seed :: given).flatMap fun e => (items e).map shown := by
    intro α shown items
    rw [List.map_append, List.map_flatMap, List.flatMap_cons]
  have harguments : ∀ items : Entry → List ArgumentEntry,
      describe ((combinedBy (·.name) ArgumentEntry.combined
          (items seed ++ given.flatMap items)).map fun x => ⟨x.name, x.description⟩) a =
        lastDescription ((seed :: given).flatMap fun e =>
          (items e).map fun x => ⟨x.name, x.description⟩) a := by
    intro items
    rw [ArgumentEntry.combines.describe_combinedBy ArgumentEntry.description (fun _ _ => rfl),
      hmentions]
  have hattributes : describe (Entry.combined seed given).documentation.attributes a =
      lastDescription ((seed :: given).flatMap (·.documentation.attributes)) a := by
    show describe ((combinedBy (·.name) AttributeEntry.combined
      (seed.attributes ++ given.flatMap (·.attributes))).map fun x => ⟨x.name, x.description⟩) a = _
    rw [AttributeEntry.combines.describe_combinedBy AttributeEntry.description (fun _ _ => rfl),
      hmentions]
    rfl
  exact ⟨harguments (·.inputs), harguments (·.outputs), hattributes⟩

/-! ### Names that came twice -/

section
variable {α : Type} {name : α → Text} {merge : α → α → α} {a : Text}

/-- A change by `modifyLast` is not seen from the front if another item of the name stands before
the one it changes. -/
theorem find?_modifyLast_of_repeated {f : α → α} (hf : ∀ x, name (f x) = name x) (n : Text)
    {xs : List α} (h : 2 ≤ (xs.map name).count a) :
    (modifyLast (fun y => name y == n) f xs).find? (fun y => name y == a) =
      xs.find? fun y => name y == a := by
  induction xs with
  | nil => simp at h
  | cons x xs ih =>
    rw [List.map_cons, List.count_cons] at h
    rw [modifyLast]
    by_cases hx : name x = a
    · -- Another item of the name follows, so this one is not the last of its name.
      have hlater : a ∈ xs.map name := by
        rw [← List.count_pos_iff]
        split at h <;> omega
      obtain ⟨y, hy, hname⟩ := List.mem_map.mp hlater
      have hkept : (name x == n && !xs.any fun y => name y == n) = false := by
        by_cases hn : a = n
        · have hany : (xs.any fun y => name y == n) = true :=
            List.any_eq_true.mpr ⟨y, hy, by simp [hname, hn]⟩
          rw [hany, Bool.not_true, Bool.and_false]
        · rw [hx, beq_false_of_ne hn, Bool.false_and]
      rw [hkept, if_neg Bool.false_ne_true, List.find?_cons_of_pos (by simp [hx]),
        List.find?_cons_of_pos (by simp [hx])]
    · rw [beq_false_of_ne hx, if_neg Bool.false_ne_true, Nat.add_zero] at h
      split
      · rw [List.find?_cons_of_neg (by simp [hf, hx]), List.find?_cons_of_neg (by simp [hx])]
      · rw [List.find?_cons_of_neg (by simp [hx]), List.find?_cons_of_neg (by simp [hx]), ih h]

/-- The first item of a name that came twice stays as it is behind `mergeNamed`, whatever is merged.
-/
theorem find?_mergeNamed_of_repeated (hmerge : ∀ x y, name (merge x y) = name x) {old : List α}
    (h : 2 ≤ (old.map name).count a) (new : List α) :
    (mergeNamed name merge old new).find? (fun y => name y == a) =
      old.find? fun y => name y == a := by
  have hfold : ∀ (changes items : List α), 2 ≤ (items.map name).count a →
      (changes.foldl (fun items x => modifyLast (fun y => name y == name x) (merge · x) items)
        items).find? (fun y => name y == a) = items.find? fun y => name y == a := by
    intro changes
    induction changes with
    | nil => exact fun _ _ => rfl
    | cons x changes ih =>
      intro items hitems
      -- A change keeps the names, so the name still stands there twice.
      have hkept := find?_modifyLast_of_repeated (fun y => hmerge y x) (name x) hitems
      rw [← map_name_modifyLast fun y => hmerge y x] at hitems
      rw [List.foldl_cons, ih _ hitems, hkept]
  -- The items that follow are not reached, since the name is found before them.
  have hfound : (old.find? fun y => name y == a).isSome = true := by
    have hmem : a ∈ old.map name := List.count_pos_iff.mp (by omega)
    obtain ⟨y, hy, hname⟩ := List.mem_map.mp hmem
    exact List.find?_isSome.mpr ⟨y, hy, by simp [hname]⟩
  rw [mergeNamed_eq_append, List.find?_append, hfold _ _ h, Option.or_of_isSome hfound]

end

/-- A name that came twice in a list of an entry keeps the description that `describe` finds,
however the entry is merged later: merging writes to the last place, and looking up reads the first.
-/
theorem Entry.describe_merge_of_repeated (e new : Entry) (a : Text) :
    (2 ≤ (e.inputs.map (·.name)).count a →
        describe (e.merge new).documentation.inputs a = describe e.documentation.inputs a) ∧
      (2 ≤ (e.outputs.map (·.name)).count a →
        describe (e.merge new).documentation.outputs a = describe e.documentation.outputs a) ∧
      (2 ≤ (e.attributes.map (·.name)).count a →
        describe (e.merge new).documentation.attributes a =
          describe e.documentation.attributes a) := by
  have hdescribe : ∀ {α : Type} (name description : α → Text) (xs ys : List α),
      (xs.find? fun x => name x == a) = (ys.find? fun x => name x == a) →
      describe (xs.map fun x => ⟨name x, description x⟩) a =
        describe (ys.map fun x => ⟨name x, description x⟩) a := by
    intro α name description xs ys h
    simp only [describe, List.find?_map, Function.comp_def, h]
  refine ⟨fun h => hdescribe _ _ _ _ ?_, fun h => hdescribe _ _ _ _ ?_,
    fun h => hdescribe _ _ _ _ ?_⟩
  · exact find?_mergeNamed_of_repeated ArgumentEntry.combines.name_merge h _
  · exact find?_mergeNamed_of_repeated ArgumentEntry.combines.name_merge h _
  · exact find?_mergeNamed_of_repeated AttributeEntry.combines.name_merge h _

/-! ### Runs -/

namespace Store

/-- Over a run that begins with a catalog, the names of an operation are distinct just when each
entry for it introduces its names once. In that case looking up a name gives the last description
that the run gives it (`lastDescription`). -/
theorem namesDistinct_putAll_iff (catalog : List OperationDef) (documents : List Text)
    (name : Text) (hcatalog : ∀ op ∈ catalog, OperationNamesDistinct op) :
    let seed := ((ofDefinitions catalog).get? name).getD { operationName := name }
    let given := (parsedEntries documents).filter (·.operationName == name)
    ∀ e, ((ofDefinitions catalog).putAll documents).get? name = some e →
      (e.NamesDistinct ↔ Entry.IntroducesOnce seed given) ∧
        (e.NamesDistinct → ∀ a,
          describe e.documentation.inputs a =
              lastDescription ((seed :: given).flatMap (·.documentation.inputs)) a ∧
            describe e.documentation.outputs a =
              lastDescription ((seed :: given).flatMap (·.documentation.outputs)) a ∧
            describe e.documentation.attributes a =
              lastDescription ((seed :: given).flatMap (·.documentation.attributes)) a) := by
  intro seed given e he
  have hseed : seed.NamesDistinct := namesDistinct_seed hcatalog name
  rw [putAll_eq_foldl_mergeEntry, get?_foldl_mergeEntry] at he
  split at he
  · cases he
  · have hrun : given.foldl Entry.merge seed = e := Option.some.inj he
    have hiff : e.NamesDistinct ↔ Entry.IntroducesOnce seed given := by
      rw [← hrun]
      exact Entry.namesDistinct_foldl_merge_iff hseed given
    refine ⟨hiff, fun hdistinct a => ?_⟩
    rw [← hrun, Entry.foldl_merge_eq hseed (hiff.mp hdistinct)]
    exact Entry.describe_combined seed given a

/-- A document that names the input `x` twice, with two descriptions. -/
def repeatingDocument : Text :=
  Text.unlines
    ["op \x7b graph_op_name: \"Neg\"", "  in_arg \x7b name: \"x\" description: \"One.\" \x7d",
      "  in_arg \x7b name: \"x\" description: \"Two.\" \x7d \x7d"]

/-- The entry that `Document.ofText?` reads in `repeatingDocument`, with the input in it twice. -/
def repeatingEntry : Entry where
  operationName := "Neg"
  inputs := [{ name := "x", description := "One." }, { name := "x", description := "Two." }]

/-- The document `repeatingDocument` parses, so the repetition is no fault of its text. -/
theorem ofText?_repeatingDocument :
    Document.ofText? repeatingDocument = some [repeatingEntry] := by
  -- Written out as characters, the texts are not decoded again at each step.
  rw [repeatingDocument, repeatingEntry]
  repeat rw [String.toList_ofList]
  decide +kernel

/-- The catalog of the sample knows the input `x`, so its name stays distinct behind
`repeatingDocument`, and the last description is found. -/
theorem namesDistinct_putAll_iff_sample :
    (∀ op ∈ sampleCatalog, OperationNamesDistinct op) ∧
      ∃ e, ((ofDefinitions sampleCatalog).putAll [repeatingDocument]).get? "Neg" = some e ∧
        e.NamesDistinct ∧ describe e.documentation.inputs "x" = "Two." := by
  have hcatalog : ∀ op ∈ sampleCatalog, OperationNamesDistinct op := by decide
  have hparsed : parsedEntries [repeatingDocument] = [repeatingEntry] := by
    simp [parsedEntries, ofText?_repeatingDocument]
  have hentry : ((ofDefinitions sampleCatalog).putAll [repeatingDocument]).get? "Neg" =
      some { operationName := "Neg", summary := "Old.",
             inputs := [{ name := "x", description := "Two." }] } := by
    rw [putAll_eq_foldl_mergeEntry, hparsed]
    decide
  obtain ⟨hiff, hlookup⟩ :=
    namesDistinct_putAll_iff sampleCatalog [repeatingDocument] "Neg" hcatalog _ hentry
  rw [hparsed] at hiff hlookup
  have hdistinct := hiff.mpr (by decide)
  exact ⟨hcatalog, _, hentry, hdistinct, (hlookup hdistinct "x").1.trans (by decide)⟩

/-- A document that describes the input `x` once more, for an entry that holds it twice. -/
def laterDocument : Text :=
  "op \x7b graph_op_name: \"Neg\" in_arg \x7b name: \"x\" description: \"New.\" \x7d \x7d"

/-- The entry behind both documents: two inputs of one name, of which `laterDocument` changed the
second. -/
def repeatedEntry : Entry where
  operationName := "Neg"
  inputs := [{ name := "x", description := "One." }, { name := "x", description := "New." }]

/-- Where the catalog does not know the input, the entry holds its name twice. The later document
describes the second one, and what `describe` finds is the description of the first. -/
theorem get?_putAll_repeatingDocument :
    OperationNamesDistinct { name := "Neg" } ∧
      ((ofDefinitions [{ name := "Neg" }]).putAll [repeatingDocument, laterDocument]).get? "Neg" =
        some repeatedEntry ∧
      ¬ repeatedEntry.NamesDistinct ∧
      describe repeatedEntry.documentation.inputs "x" = "One." := by
  have hlater : Document.ofText? laterDocument =
      some [{ operationName := "Neg", inputs := [{ name := "x", description := "New." }] }] := by
    decide +kernel
  have hparsed : parsedEntries [repeatingDocument, laterDocument] = [repeatingEntry,
      { operationName := "Neg", inputs := [{ name := "x", description := "New." }] }] := by
    simp [parsedEntries, ofText?_repeatingDocument, hlater]
  have hentry : ((ofDefinitions [{ name := "Neg" }]).putAll
      [repeatingDocument, laterDocument]).get? "Neg" = some repeatedEntry := by
    rw [putAll_eq_foldl_mergeEntry, hparsed]
    decide
  exact ⟨by decide, hentry, by decide, by decide⟩

end Store

end TypedOps.Api
