import Mathlib.Data.List.Forall2
import TypedOps.Proofs.Run.Inputs
import TypedOps.Proofs.Text.Order

/-!
# `TypedOps.Proofs.Run.Overrides`: a bad override file is as good as absent

Override files are merged directory by directory, and those of a directory in the order of their
names. A file is good if it is UTF-8 and a store takes its text. That does not depend on the
store (`OverrideFile.isGood_eq`), so the good files can be told before anything is merged.

`TakesIn` says all that a step does with some files: the store takes the good ones, they are
listed and announced, and there is one warning for each of the others. It passes along the files
of a directory and along directories by the same lemma (`takesIn_foldlM`).

* `takesIn_mergeFile`, `takesIn_mergeDirectory`: the steps.
* `mergeDirectories_run`: what becomes of existing directories with any files.
-/

set_option autoImplicit false

namespace TypedOps

open Run

/-- An override file as it is found, with its `Path` and its bytes. -/
structure OverrideFile where
  path : Path
  content : Bytes
deriving DecidableEq

namespace OverrideFile

/-- The text of the file with `withLineFeeds`, or nothing if it is not UTF-8. -/
def text? (file : OverrideFile) : Option Text := (Utf8.decode? file.content).map withLineFeeds

/-- The store behind the file, or nothing if the file has no text that the store takes by `put?`. -/
def putInto (store : Api.Store) (file : OverrideFile) : Option Api.Store :=
  file.text?.bind store.put?

/-- Whether the file is UTF-8 and has a text that a store takes. The empty store shows it, by
`putInto`. -/
def isGood (file : OverrideFile) : Bool := (file.putInto {}).isSome

/-- Every store takes the same files, so `isGood` may ask the empty one. -/
theorem isGood_eq (file : OverrideFile) (store : Api.Store) :
    file.isGood = (file.putInto store).isSome := by
  rw [isGood, putInto, putInto]
  cases file.text? with
  | none => rfl
  | some t => simp only [Option.bind_some, Api.Store.put?, Option.isSome_map]

end OverrideFile

open OverrideFile (putInto)

/-- The lines that are printed for some files: one for each that `isGood`, if lines are asked for.
-/
def announcements (verbose : Bool) (files : List OverrideFile) : List Text :=
  if verbose then
    (files.filter (·.isGood)).map fun file => "Merged api definitions: " ++ file.path.text
  else []

/-- The warnings that are given for some files: one for each that is not `isGood`. -/
def refusals (files : List OverrideFile) : List Warning :=
  (files.filter (!·.isGood)).map fun file => .overrideRefused file.path.text

/-- The files of a directory in the order of their names, as `Text.le` has it, with their contents.
-/
structure Enumerates (tree : FileTree) (directory : Path) (files : List OverrideFile) : Prop where
  listed : ∃ (location : Location) (names : List Text), tree.locate directory = .ok location ∧
    files.map (·.path) = names.map directory.join ∧
    names.Pairwise (fun s t => Text.le s t = true) ∧
    (∀ name, name ∈ names ↔ ∃ content, (location ++ [name], Node.file content) ∈ tree.nodes) ∧
    ((tree.nodes.map Prod.fst).Nodup → names.Nodup)
  contents : ∀ file ∈ files, tree.read file.path = .ok file.content

/-! ### Listing a directory -/

namespace FileTree

/-- The name of a file, if the entry is a file in the directory at `location`. -/
def nameIn? (location : Location) (entry : Location × Node) : Option Text :=
  match entry.2, entry.1.getLast? with
  | .file _, some name => if entry.1.dropLast == location then some name else none
  | _, _ => none

/-- A name is given by `nameIn?` for a file whose place is the directory's with that name behind it.
-/
theorem nameIn?_eq_some_iff (location : Location) (entry : Location × Node) (name : Text) :
    nameIn? location entry = some name ↔
      ∃ content, entry = (location ++ [name], .file content) := by
  obtain ⟨place, node⟩ := entry
  -- The last part of the place is the name, and the parts before it are the directory.
  constructor
  · intro h
    rw [nameIn?] at h
    split at h
    · next content last hnode hlast =>
      split at h
      · next hplace =>
        obtain rfl := Option.some.inj h
        obtain ⟨front, rfl⟩ := List.getLast?_eq_some_iff.mp hlast
        rw [List.dropLast_concat, beq_iff_eq] at hplace
        subst hplace
        exact ⟨content, congrArg _ hnode⟩
      · cases h
    · cases h
  · rintro ⟨content, heq⟩
    obtain ⟨rfl, rfl⟩ := Prod.mk.inj heq
    simp [nameIn?]

/-- The `fileNames` of a directory are the sorted names of its files. -/
theorem fileNames_eq (tree : FileTree) (location : Location) :
    tree.fileNames location = (tree.nodes.filterMap (nameIn? location)).mergeSort Text.le := rfl

/-- The `fileNames` of a directory are in order. -/
theorem pairwise_fileNames (tree : FileTree) (location : Location) :
    (tree.fileNames location).Pairwise fun s t => Text.le s t = true := by
  rw [fileNames_eq]
  exact @List.pairwise_mergeSort Text Text.le (fun _ _ _ => Text.le_trans) Text.le_total _

/-- The `fileNames` of a directory are those that files have there. -/
theorem mem_fileNames (tree : FileTree) (location : Location) (name : Text) :
    name ∈ tree.fileNames location ↔
      ∃ content, (location ++ [name], Node.file content) ∈ tree.nodes := by
  rw [fileNames_eq, List.mem_mergeSort, List.mem_filterMap]
  constructor
  · rintro ⟨entry, hentry, hname⟩
    obtain ⟨content, rfl⟩ := (nameIn?_eq_some_iff location entry name).mp hname
    exact ⟨content, hentry⟩
  · rintro ⟨content, hentry⟩
    exact ⟨_, hentry, (nameIn?_eq_some_iff location _ name).mpr ⟨content, rfl⟩⟩

/-- Among the `fileNames` no name comes twice where no place does. -/
theorem nodup_fileNames {tree : FileTree} (h : (tree.nodes.map Prod.fst).Nodup)
    (location : Location) : (tree.fileNames location).Nodup := by
  rw [fileNames_eq, (List.mergeSort_perm _ _).nodup_iff]
  refine (List.pairwise_map.mp h).filterMap _ fun entry entry' hne name hname name' hname' => ?_
  obtain ⟨content, rfl⟩ := (nameIn?_eq_some_iff location entry name).mp hname
  obtain ⟨content', rfl⟩ := (nameIn?_eq_some_iff location entry' name').mp hname'
  rintro rfl
  exact hne rfl

/-- The files that `files?` lists for a directory are its files in order, if each can be opened. -/
theorem exists_enumerates {tree : FileTree} {directory : Path} {paths : List Path}
    (hlisted : tree.files? directory = .ok (some paths))
    (hopened : ∀ p ∈ paths, ∃ content, tree.read p = .ok content) :
    ∃ files, Enumerates tree directory files ∧
      tree.files? directory = .ok (some (files.map (·.path))) := by
  -- The files are the paths with what they hold, found one by one.
  have hcontents : ∃ files : List OverrideFile, files.map (·.path) = paths ∧
      ∀ file ∈ files, tree.read file.path = .ok file.content := by
    clear hlisted
    induction paths with
    | nil => exact ⟨[], rfl, by simp⟩
    | cons p paths ih =>
      rw [List.forall_mem_cons] at hopened
      obtain ⟨content, hcontent⟩ := hopened.1
      obtain ⟨files, rfl, hfiles⟩ := ih hopened.2
      exact ⟨⟨p, content⟩ :: files, rfl, List.forall_mem_cons.mpr ⟨hcontent, hfiles⟩⟩
  obtain ⟨files, rfl, hfiles⟩ := hcontents
  refine ⟨files, ⟨?_, hfiles⟩, hlisted⟩
  -- The listing names the files in order, which is all that is left to be shown.
  simp only [files?, bind_eq_ok_iff] at hlisted
  obtain ⟨found, -, hnames⟩ := hlisted
  split at hnames
  · simp only [bind_eq_ok_iff] at hnames
    obtain ⟨location, hlocation, hnames⟩ := hnames
    refine ⟨location, tree.fileNames location, hlocation, ?_, pairwise_fileNames tree location,
      mem_fileNames tree location, fun hdistinct => nodup_fileNames hdistinct location⟩
    exact (Option.some.inj (Except.ok.inj hnames)).symm
  · cases hnames

/-- Several directories whose files can be opened have by `Enumerates` their files batch by batch.
-/
theorem exists_batches {tree : FileTree} {directories : List Path}
    (hopened : ∀ directory ∈ directories, ∃ paths, tree.files? directory = .ok (some paths) ∧
      ∀ p ∈ paths, ∃ content, tree.read p = .ok content) :
    ∃ batches, List.Forall₂ (fun directory files => Enumerates tree directory files ∧
      tree.files? directory = .ok (some (files.map (·.path)))) directories batches := by
  induction directories with
  | nil => exact ⟨[], .nil⟩
  | cons directory directories ih =>
    rw [List.forall_mem_cons] at hopened
    obtain ⟨paths, hlisted, hfound⟩ := hopened.1
    obtain ⟨files, hfiles⟩ := exists_enumerates hlisted hfound
    obtain ⟨batches, hbatches⟩ := ih hopened.2
    exact ⟨files :: batches, .cons hfiles hbatches⟩

end FileTree

/-! ### Merging -/

section
variable (verbose : Bool) (tree : FileTree)

/-- A step takes in some files: the store takes those that are `isGood` one after the other, they
are listed and announced, and the others are warned of. -/
def TakesIn (files : List OverrideFile) (step : Refinement → Run Refinement) : Prop :=
  ∀ (state : Refinement) (printed : List Text) (warnings : List Warning), ∃ store,
    (files.filter (·.isGood)).foldlM putInto state.store = some store ∧
      (step state).run ⟨tree, printed, warnings⟩ =
        (.ok ⟨store, state.merged ++ (files.filter (·.isGood)).map (·.path)⟩,
          ⟨tree, printed ++ announcements verbose files, warnings ++ refusals files⟩)

variable {verbose tree}

/-- A step that changes nothing `TakesIn` no files. -/
theorem takesIn_nil : TakesIn verbose tree [] pure := by
  intro state printed warnings
  have hsilent : announcements verbose [] = [] := by
    cases verbose <;> rfl
  refine ⟨state.store, rfl, ?_⟩
  rw [hsilent, List.append_nil, List.filter_nil, List.map_nil, List.append_nil]
  exact congrArg (fun given => (Except.ok state, (⟨tree, printed, given⟩ : Session)))
    (List.append_nil warnings).symm

/-- A step that `TakesIn` some files, with one behind it that takes in others, takes in all of them
in a row. -/
theorem TakesIn.append {files files' : List OverrideFile}
    {step step' : Refinement → Run Refinement} (h : TakesIn verbose tree files step)
    (h' : TakesIn verbose tree files' step') :
    TakesIn verbose tree (files ++ files') fun state => step state >>= step' := by
  -- The second step starts where the first has ended, with all that has been said so far.
  intro state printed warnings
  obtain ⟨store, hstore, hrun⟩ := h state printed warnings
  obtain ⟨store', hstore', hrun'⟩ :=
    h' ⟨store, state.merged ++ (files.filter (·.isGood)).map (·.path)⟩
      (printed ++ announcements verbose files) (warnings ++ refusals files)
  have hsaid : announcements verbose (files ++ files') =
      announcements verbose files ++ announcements verbose files' := by
    cases verbose <;> simp [announcements]
  have hwarned : refusals (files ++ files') = refusals files ++ refusals files' := by
    simp only [refusals, List.filter_append, List.map_append]
  refine ⟨store', ?_, ?_⟩
  · rw [List.filter_append, List.foldlM_append, hstore]
    exact hstore'
  · simp only [run_bind, hrun, hrun', hsaid, hwarned, List.filter_append, List.map_append,
      List.append_assoc]

/-- Steps in a row take in by `TakesIn` their batches of files one after the other. -/
theorem takesIn_foldlM {α : Type} {step : Refinement → α → Run Refinement} {items : List α}
    {batches : List (List OverrideFile)}
    (h : List.Forall₂ (fun a files => TakesIn verbose tree files fun state => step state a) items
      batches) :
    TakesIn verbose tree batches.flatten fun state => items.foldlM step state := by
  induction h with
  | nil => exact takesIn_nil
  | cons hfirst _ ih =>
    simp only [List.foldlM_cons, List.flatten_cons]
    exact hfirst.append ih

/-- The step `mergeFile` takes the file in if it is good, and warns of it if it is not. -/
theorem takesIn_mergeFile {file : OverrideFile} (h : tree.read file.path = .ok file.content) :
    TakesIn verbose tree [file] fun state => mergeFile verbose state file.path := by
  intro state printed warnings
  have hcontent : (readFile file.path).run ⟨tree, printed, warnings⟩ =
      (.ok file.content, ⟨tree, printed, warnings⟩) := by
    show (ofExcept RunFault.file (tree.read file.path)).run ⟨tree, printed, warnings⟩ = _
    rw [h]
    rfl
  have htext : (readText? file.path).run ⟨tree, printed, warnings⟩ =
      (.ok file.text?, ⟨tree, printed, warnings⟩) := by
    rw [readText?, run_bind, hcontent]
    rfl
  have htake : state.take? file.path file.text? =
      (file.putInto state.store).map fun store => ⟨store, state.merged ++ [file.path]⟩ := rfl
  simp only [mergeFile, run_bind, htext, htake]
  have hgood := file.isGood_eq state.store
  cases hput : file.putInto state.store with
  | none =>
    -- Whatever was parsed of it, the store is the one in front of it.
    rw [hput, Option.isSome_none] at hgood
    have hkept : [file].filter (·.isGood) = [] := by simp [hgood]
    have hsilent : announcements verbose [file] = [] := by
      cases verbose <;> simp [announcements, hgood]
    have hwarned : refusals [file] = [.overrideRefused file.path.text] := by
      simp [refusals, hgood]
    refine ⟨state.store, by rw [hkept]; rfl, ?_⟩
    rw [hkept, hsilent, hwarned, List.map_nil, List.append_nil, List.append_nil]
    rfl
  | some store =>
    rw [hput, Option.isSome_some] at hgood
    have hkept : [file].filter (·.isGood) = [file] := by simp [hgood]
    have hwarned : refusals [file] = [] := by simp [refusals, hgood]
    refine ⟨store, ?_, ?_⟩
    · rw [hkept, List.foldlM_cons, hput]
      rfl
    · rw [hkept, hwarned, List.map_singleton, List.append_nil]
      cases verbose with
      | false =>
        have hsilent : announcements false [file] = [] := rfl
        rw [hsilent, List.append_nil]
        rfl
      | true =>
        have hsaid : announcements true [file] =
            ["Merged api definitions: " ++ file.path.text] := by
          simp [announcements, hgood]
        rw [hsaid]
        rfl

/-- The step `mergeDirectory` takes in the files of the directory in the order that `Enumerates`
fixes. -/
theorem takesIn_mergeDirectory {directory : Path} {files : List OverrideFile}
    (hlisted : tree.files? directory = .ok (some (files.map (·.path))))
    (hcontents : ∀ file ∈ files, tree.read file.path = .ok file.content) :
    TakesIn verbose tree files fun state => mergeDirectory verbose state directory := by
  -- Each file is a batch of its own.
  have hfiles : TakesIn verbose tree files fun state =>
      (files.map (·.path)).foldlM (mergeFile verbose) state := by
    have heach : List.Forall₂ (fun path files =>
        TakesIn verbose tree files fun state => mergeFile verbose state path)
        (files.map (·.path)) (files.map fun file => [file]) := by
      rw [List.forall₂_map_left_iff, List.forall₂_map_right_iff, List.forall₂_same]
      exact fun file hfile => takesIn_mergeFile (hcontents file hfile)
    have hall := takesIn_foldlM heach
    rwa [← List.flatMap_def, List.flatMap_singleton'] at hall
  intro state printed warnings
  have hlist : (listFiles directory).run ⟨tree, printed, warnings⟩ =
      (.ok (files.map (·.path)), ⟨tree, printed, warnings⟩) := by
    show ((ofExcept RunFault.file (tree.files? directory)) >>= _).run ⟨tree, printed, warnings⟩ = _
    rw [hlisted]
    rfl
  obtain ⟨store, hstore, hrun⟩ := hfiles state printed warnings
  refine ⟨store, hstore, ?_⟩
  simp only [mergeDirectory, run_bind, hlist]
  exact hrun

end

/-- What `mergeDirectories` does with existing directories that hold any files which can be opened.
The store is the one behind the good files alone, directory by directory in the given order and in
the order of names in each; a store takes each of them. Just these files are given back, in that
order. There is one warning for each other file, in order, with its path. So a file that fails to
parse behind some good entries changes nothing. -/
theorem mergeDirectories_run (verbose : Bool) (store : Api.Store) (directories : List Path)
    (session : Session)
    (hopened : ∀ directory ∈ directories, ∃ paths,
      session.tree.files? directory = .ok (some paths) ∧
        ∀ p ∈ paths, ∃ content, session.tree.read p = .ok content) :
    ∃ (batches : List (List OverrideFile)) (refined : Api.Store),
      List.Forall₂ (Enumerates session.tree) directories batches ∧
      (∀ file ∈ batches.flatten, ∀ other : Api.Store,
        file.isGood = false ↔ file.text? = none ∨
          ∃ text, file.text? = some text ∧ other.put? text = none) ∧
      (batches.flatten.filter (·.isGood)).foldlM putInto store = some refined ∧
      (mergeDirectories verbose store directories).run session =
        (.ok ⟨refined, (batches.flatten.filter (·.isGood)).map (·.path)⟩,
          ⟨session.tree, session.printed ++ announcements verbose batches.flatten,
            session.warnings ++ refusals batches.flatten⟩) := by
  obtain ⟨tree, printed, warnings⟩ := session
  obtain ⟨batches, hbatches⟩ := FileTree.exists_batches hopened
  have htaken : TakesIn verbose tree batches.flatten fun state =>
      directories.foldlM (mergeDirectory verbose) state :=
    takesIn_foldlM (hbatches.imp fun directory files hfiles =>
      takesIn_mergeDirectory hfiles.2 hfiles.1.contents)
  obtain ⟨refined, hrefined, hrun⟩ := htaken ⟨store, []⟩ printed warnings
  refine ⟨batches, refined, hbatches.imp fun _ _ hfiles => hfiles.1, ?_, hrefined, hrun⟩
  -- Whether a file is good can be asked of any store.
  intro file _ other
  rw [file.isGood_eq other, putInto]
  cases file.text? with
  | none => simp
  | some text => simp [Option.isSome_eq_false_iff]

/-- Two directories of overrides. The first has a file that opens a block behind a good entry and
leaves it open, and one that is no text. Neither `isGood`. -/
def mixedTree : FileTree :=
  ⟨[(["early"], .directory),
    (["early", "B"], .file (Utf8.encode "op \x7b graph_op_name: \"Abs\" \x7d op \x7b")),
    (["early", "a"], .file (Utf8.encode "op \x7b graph_op_name: \"Neg\" summary: \"First.\" \x7d")),
    (["early", "b"], .file [0xFF]),
    (["late"], .directory),
    (["late", "neg"],
      .file (Utf8.encode "op \x7b graph_op_name: \"Neg\" summary: \"Last.\" \x7d"))]⟩

/-- The files of both directories of the `mixedTree` can be opened, so the run is as described. -/
theorem mergeDirectories_run_mixed :
    let directories := [Path.ofText "late", Path.ofText "early"]
    let session : Session := ⟨mixedTree, [], []⟩
    (∀ directory ∈ directories, ∃ paths, session.tree.files? directory = .ok (some paths) ∧
      ∀ p ∈ paths, ∃ content, session.tree.read p = .ok content) ∧
    ∃ (batches : List (List OverrideFile)) (refined : Api.Store),
      List.Forall₂ (Enumerates mixedTree) directories batches ∧
      (batches.flatten.filter (·.isGood)).foldlM putInto {} = some refined ∧
      (mergeDirectories true {} directories).run session =
        (.ok ⟨refined, (batches.flatten.filter (·.isGood)).map (·.path)⟩,
          ⟨mixedTree, announcements true batches.flatten, refusals batches.flatten⟩) := by
  intro directories session
  -- The names in each directory are sorted already, so sorting them changes nothing.
  have hearly : mixedTree.files? (Path.ofText "early") =
      .ok (some [Path.ofText "early/B", Path.ofText "early/a", Path.ofText "early/b"]) := by
    have hnames : mixedTree.fileNames ["early"] = ["B".toList, "a".toList, "b".toList] := by
      rw [FileTree.fileNames_eq]
      exact List.mergeSort_of_pairwise (by decide)
    show Except.ok (some ((mixedTree.fileNames ["early"]).map (Path.ofText "early").join)) = _
    rw [hnames]
    rfl
  have hlate : mixedTree.files? (Path.ofText "late") = .ok (some [Path.ofText "late/neg"]) := by
    have hnames : mixedTree.fileNames ["late"] = ["neg".toList] := by
      rw [FileTree.fileNames_eq]
      exact List.mergeSort_of_pairwise (by decide)
    show Except.ok (some ((mixedTree.fileNames ["late"]).map (Path.ofText "late").join)) = _
    rw [hnames]
    rfl
  have hopened : ∀ directory ∈ directories, ∃ paths,
      session.tree.files? directory = .ok (some paths) ∧
        ∀ p ∈ paths, ∃ content, session.tree.read p = .ok content := by
    simp only [directories, List.forall_mem_cons]
    refine ⟨⟨_, hlate, ?_⟩, ⟨_, hearly, ?_⟩, by simp⟩
    · simp only [List.forall_mem_cons]
      exact ⟨⟨_, rfl⟩, by simp⟩
    · simp only [List.forall_mem_cons]
      exact ⟨⟨_, rfl⟩, ⟨_, rfl⟩, ⟨_, rfl⟩, by simp⟩
  -- All files can be opened, so the general theorem describes the run.
  obtain ⟨batches, refined, hbatches, -, hrefined, hrun⟩ :=
    mergeDirectories_run true {} directories session hopened
  exact ⟨hopened, batches, refined, hbatches, hrefined, hrun⟩

end TypedOps
