import Mathlib.Data.List.ReduceOption
import TypedOps.Proofs.Support.Except
import TypedOps.Proofs.Run.CatalogOrder
import TypedOps.Run.Generator

/-!
# `TypedOps.Proofs.Run.Inputs`: a run as a function of the file tree

A run prints, warns, reads and writes. What it answers depends on the tree only, and up to the
last step it changes nothing in it. `FileTree.inputs` is what a run reads: the operations of the
catalog and the texts of the override files, or the first fault. `prepared` is what it makes of
them before it writes, and `outcome` is its answer with the tree it leaves.

`Acts step f` says that `f` is the answer of a step and the tree behind it, for every session
it can start in; `Reads step f` is the case in which the tree stays. Both pass along the parts of
a step (`Reads.bind`, `Reads.bind_acts`), so each function of the run has one lemma that says
what it reads, and `generate_acts` puts them together.
-/

set_option autoImplicit false

namespace TypedOps

open Catalog (OperationDef)
open Run

/-! ### What a run reads -/

namespace FileTree

/-- The content of a file, as a function of the tree that the step `readFile` answers by. -/
def content (tree : FileTree) (path : Path) : Except RunFault Bytes :=
  (tree.read path).mapError .file

/-- The text of a file with its line ends made line feeds by `withLineFeeds`, or nothing if it is
not UTF-8. -/
def text? (tree : FileTree) (path : Path) : Except RunFault (Option Text) :=
  (tree.content path).map fun content => (Utf8.decode? content).map withLineFeeds

/-- The operations of a catalog file, whose form is told by the ending of its name: one of the
`textEndings`, or else binary. -/
def definitions (tree : FileTree) (path : Path) : Except RunFault (List OperationDef) :=
  if textEndings.contains path.extension then do
    match ← tree.text? path with
    | some t => textOperations t
    | none => throw (.catalogNotText path)
  else do
    binaryOperations (← tree.content path)

/-- The files of a directory in the order of their names, by `files?`. A directory that is not there
is a fault. -/
def filesOf (tree : FileTree) (directory : Path) : Except RunFault (List Path) := do
  match ← (tree.files? directory).mapError .file with
  | some paths => return paths
  | none => throw (.directoryMissing directory)

/-- The texts of the override files of a directory. Files for which `text?` gives none are left out.
-/
def overrides (tree : FileTree) (directory : Path) : Except RunFault (List Text) := do
  let files ← tree.filesOf directory
  (files.mapM tree.text?).map List.reduceOption

/-- What a run reads: the operations of the catalog (`definitions`), and the texts of the override
files (`overrides`) in the order of the directories and of names. -/
def inputs (tree : FileTree) (catalog : Path) (directories : List Path) :
    Except RunFault (List OperationDef × List Text) := do
  let definitions ← tree.definitions catalog
  let texts ← directories.mapM tree.overrides
  return (definitions, texts.flatten)

/-- An override file with its `text?`. The path is kept for the line that tells what was merged. -/
def overrideFile (tree : FileTree) (path : Path) : Except RunFault (Path × Option Text) :=
  (tree.text? path).map (Prod.mk path)

/-- The override files of a directory, each an `overrideFile` with its text, those that are no text
included. -/
def overrideFiles (tree : FileTree) (directory : Path) :
    Except RunFault (List (Path × Option Text)) := do
  let files ← tree.filesOf directory
  files.mapM tree.overrideFile

/-- The texts of `overrides` are those of `overrideFiles`, without the files that have none. -/
theorem overrides_eq (tree : FileTree) (directory : Path) :
    tree.overrides directory =
      (tree.overrideFiles directory).map fun files => (files.map Prod.snd).reduceOption := by
  have htext : tree.text? = fun path => (tree.overrideFile path).map Prod.snd := by
    funext path
    rw [overrideFile]
    rcases tree.text? path with fault | text <;> rfl
  rw [overrides, overrideFiles, htext]
  rcases tree.filesOf directory with fault | files
  · rfl
  · show Except.map _ (files.mapM fun path => (tree.overrideFile path).map Prod.snd) =
      (files.mapM tree.overrideFile).map _
    rw [mapM_map]
    rcases files.mapM tree.overrideFile with fault | files <;> rfl

end FileTree

/-! ### What a run makes of it -/

/-- The value of a `Setting`, or the fault that it is not set. -/
def given (setting : Setting) (value : Option Text) : Except RunFault Text :=
  value.elim (.error (.unset setting)) .ok

/-- A setting that is to be `given` has a value exactly when one is there. -/
theorem given_eq_ok_iff (setting : Setting) (value : Option Text) (t : Text) :
    given setting value = .ok t ↔ value = some t := by
  cases value <;> simp [given]

/-- Only the required width passes `checkWidth`. -/
theorem checkWidth_eq_ok_iff (width : Int) (u : Unit) :
    checkWidth width = .ok u ↔ width = requiredWidth := by
  rw [checkWidth]
  split
  · next hwidth => exact iff_of_true rfl hwidth
  · next hwidth => exact iff_of_false (by nofun) hwidth

/-- The signatures that a run reads, and the documentation behind all overrides that `putAll` takes.
-/
def loaded (input : List OperationDef × List Text) : List Operation × Api.Store :=
  (Catalog.signatures input.1, (Api.Store.ofDefinitions input.1).putAll input.2)

/-- What a run has made before it writes: the place, the text and the report. The `inputs` are read
on the way. -/
def prepared (table : TypeTable) (width : Int) (request : Request) (tree : FileTree) :
    Except RunFault (Path × Text × Report) := do
  checkWidth width
  let catalog ← given .catalog request.catalog
  let (definitions, overrides) ←
    tree.inputs (Path.ofText catalog) (request.directories.map Path.ofText)
  let binding ← given .binding request.binding
  let (code, report) ← (run table binding definitions overrides).2.mapError .emit
  let output ← given .output request.output
  return (Path.ofText output, Layout.withHeader code request.license, report)

/-- The file that a run writes by `writeAtomically` behind its preparations, and the tree it leaves.
-/
def written (preparations : Except RunFault (Path × Text × Report)) (tree : FileTree) :
    Except RunFault Report × FileTree :=
  match preparations with
  | .error fault => (.error fault, tree)
  | .ok (target, text, report) =>
    let (result, after) := tree.writeAtomically target (Utf8.encode text)
    ((result.mapError .file).map fun _ => report, after)

namespace Refinement

/-- The state behind an override file: its text is taken in by `take?`, or the state stays. -/
def after (state : Refinement) (file : Path × Option Text) : Refinement :=
  (state.take? file.1 file.2).getD state

/-- The store `after` a file is the one behind its text, if the file has one. -/
theorem store_after (state : Refinement) (file : Path × Option Text) :
    (state.after file).store = state.store.putAll file.2.toList := by
  obtain ⟨path, text⟩ := file
  cases text with
  | none => rfl
  | some t =>
    show (((state.store.put? t).map fun store => _).getD state).store =
      (state.store.put? t).getD state.store
    cases state.store.put? t <;> rfl

/-- The store behind the files of some batches is the one behind their texts, which is how `inputs`
gives them. -/
theorem store_foldl_after (state : Refinement) (batches : List (List (Path × Option Text))) :
    (batches.flatten.foldl after state).store =
      state.store.putAll (batches.map fun files => (files.map Prod.snd).reduceOption).flatten := by
  -- Within a batch the files are taken in one by one, and one without a text changes nothing.
  have hfiles : ∀ (files : List (Path × Option Text)) (state : Refinement),
      (files.foldl after state).store =
        state.store.putAll (files.map Prod.snd).reduceOption := by
    intro files
    induction files with
    | nil => exact fun state => rfl
    | cons file files ih =>
      intro state
      rw [List.foldl_cons, ih, store_after]
      obtain ⟨path, text⟩ := file
      cases text <;> rfl
  -- The batches in a row are one batch.
  have htexts : (batches.map fun files => (files.map Prod.snd).reduceOption).flatten =
      (batches.flatten.map Prod.snd).reduceOption := by
    induction batches with
    | nil => rfl
    | cons files batches ih =>
      rw [List.map_cons, List.flatten_cons, List.flatten_cons, List.map_append,
        List.reduceOption_append, ih]
  rw [hfiles, htexts]

end Refinement

namespace Run

/-! ### Steps that read and steps that act -/

section
variable {α β γ : Type}

/-- A step of a `Run` answers by a function of the tree, which also gives the tree it leaves. What
it prints and warns of is left open. -/
def Acts (step : Run α) (f : FileTree → Except RunFault α × FileTree) : Prop :=
  ∀ session : Session, ∃ printed warnings,
    step.run session = ((f session.tree).1, ⟨(f session.tree).2, printed, warnings⟩)

/-- A step `Acts` by a function of the tree and leaves the tree as it is. -/
def Reads (step : Run α) (f : FileTree → Except RunFault α) : Prop :=
  Acts step fun tree => (f tree, tree)

/-- To `run` a step behind another starts in the session that the first one leaves. -/
theorem run_bind (step : Run α) (next : α → Run β) (session : Session) :
    (step >>= next).run session =
      match step.run session with
      | (.ok a, after) => (next a).run after
      | (.error fault, after) => (.error fault, after) := by
  show (ExceptT.bindCont next (step.run session).1).run (step.run session).2 = _
  rcases step.run session with ⟨fault | a, after⟩ <;> rfl

/-- A step behind one that reads. `finish` is what becomes of an answer; it has to pass faults on.
-/
theorem Reads.bind_acts {step : Run α} {f : FileTree → Except RunFault α} (hstep : Reads step f)
    {next : α → Run γ} {g : α → FileTree → Except RunFault β}
    (finish : Except RunFault β → FileTree → Except RunFault γ × FileTree)
    (hfinish : ∀ fault tree, finish (.error fault) tree = (.error fault, tree))
    (hnext : ∀ a, Acts (next a) fun tree => finish (g a tree) tree) :
    Acts (step >>= next) fun tree => finish (f tree >>= fun a => g a tree) tree := by
  intro session
  obtain ⟨printed, warnings, hrun⟩ := hstep session
  rw [run_bind, hrun]
  rcases hf : f session.tree with fault | a
  · exact ⟨printed, warnings, by simp only [hf, bind, Except.bind, hfinish]⟩
  · obtain ⟨printed', warnings', hrun'⟩ := hnext a ⟨session.tree, printed, warnings⟩
    refine ⟨printed', warnings', ?_⟩
    simp only [hf]
    exact hrun'

/-- Two steps with `Reads` make one that reads, whose function is the two functions in a row. -/
theorem Reads.bind {step : Run α} {f : FileTree → Except RunFault α} (hstep : Reads step f)
    {next : α → Run β} {g : α → FileTree → Except RunFault β}
    (hnext : ∀ a, Reads (next a) (g a)) :
    Reads (step >>= next) fun tree => f tree >>= fun a => g a tree :=
  hstep.bind_acts (fun answer tree => (answer, tree)) (fun _ _ => rfl) hnext

/-- A step that only says something changes nothing about a next one with `Acts`. -/
theorem Reads.acts_behind {step : Run Unit} (hstep : Reads step fun _ => .ok ()) {next : Run α}
    {f : FileTree → Except RunFault α × FileTree} (hnext : Acts next f) :
    Acts (step >>= fun _ => next) f := by
  intro session
  obtain ⟨printed, warnings, hrun⟩ := hstep session
  rw [run_bind, hrun]
  exact hnext ⟨session.tree, printed, warnings⟩

/-- Behind a step with `Acts`, one that only gives its answer makes no difference to the tree. -/
theorem Acts.bind_answer {step : Run α} {f : FileTree → Except RunFault α × FileTree}
    (hstep : Acts step f) {next : α → Run β} {b : β}
    (hnext : ∀ a, Reads (next a) fun _ => .ok b) :
    Acts (step >>= next) fun tree => ((f tree).1.map fun _ => b, (f tree).2) := by
  intro session
  obtain ⟨printed, warnings, hrun⟩ := hstep session
  rw [run_bind, hrun]
  rcases hf : f session.tree with ⟨fault | a, after⟩
  · exact ⟨printed, warnings, by simp only [hf, Except.map]⟩
  · obtain ⟨printed', warnings', hrun'⟩ := hnext a ⟨after, printed, warnings⟩
    exact ⟨printed', warnings', by simpa only [hf, Except.map] using hrun'⟩

/-- What `Acts` says is about the values of the function, so a function with the same values will
do. -/
theorem Acts.congr {step : Run α} {f g : FileTree → Except RunFault α × FileTree}
    (hstep : Acts step f) (h : ∀ tree, f tree = g tree) : Acts step g :=
  (funext h : f = g) ▸ hstep

/-- What `Reads` says is about the values of the function, so a function with the same values will
do. -/
theorem Reads.congr {step : Run α} {f g : FileTree → Except RunFault α} (hstep : Reads step f)
    (h : ∀ tree, f tree = g tree) : Reads step g :=
  Acts.congr hstep fun tree => congrArg (·, tree) (h tree)

/-- A step that gives an answer at once `Reads` nothing. -/
theorem reads_pure (a : α) : Reads (pure a) fun _ => .ok a :=
  fun session => ⟨session.printed, session.warnings, rfl⟩

/-- A step that ends the run `Reads` nothing, so it leaves the tree as it is. -/
theorem reads_throw (fault : RunFault) : Reads (throw fault : Run α) fun _ => .error fault :=
  fun session => ⟨session.printed, session.warnings, rfl⟩

/-- To `say` a line changes no file. -/
theorem reads_say (line : Text) : Reads (say line) fun _ => .ok () :=
  fun session => ⟨session.printed ++ [line], session.warnings, rfl⟩

/-- To `sayIf` a line only when it is asked for changes no file either. -/
theorem reads_sayIf (verbose : Bool) (line : Text) :
    Reads (sayIf verbose line) fun _ => .ok () := by
  rw [sayIf]
  split
  · exact reads_say line
  · exact reads_pure ()

/-- To `warn` changes no file, whatever the warnings are. -/
theorem reads_warn (warnings : List Warning) : Reads (warn warnings) fun _ => .ok () :=
  fun session => ⟨session.printed, session.warnings ++ warnings, rfl⟩

/-- A result under `ofExcept` goes on with an answer, and ends the run with a fault. -/
theorem reads_ofExcept {ε : Type} (fault : ε → RunFault) (result : Except ε α) :
    Reads (ofExcept fault result) fun _ => result.mapError fault := by
  cases result with
  | error e => exact reads_throw (fault e)
  | ok a => exact reads_pure a

/-- The value of a setting goes on, and a missing one ends the run as `given` says. -/
theorem reads_required (setting : Setting) (value : Option Text) :
    Reads (required setting value) fun _ => given setting value := by
  cases value with
  | none => exact reads_throw (.unset setting)
  | some value => exact reads_pure value

/-- A question to the tree `Reads` it as it stands. -/
theorem reads_tree {ε : Type} (fault : ε → RunFault) (ask : FileTree → Except ε α) :
    Reads (do ofExcept fault (ask (← get).tree)) fun tree => (ask tree).mapError fault := by
  intro session
  exact reads_ofExcept fault (ask session.tree) session

/-- Steps in a row with `Reads`, each of which reads a piece and takes it in, read all the pieces.
-/
theorem reads_foldlM {σ : Type} {step : σ → α → Run σ}
    {piece : FileTree → α → Except RunFault β} {take : σ → β → σ}
    (hstep : ∀ state a, Reads (step state a) fun tree => (piece tree a).map (take state))
    (state : σ) (items : List α) :
    Reads (items.foldlM step state)
      fun tree => (items.mapM (piece tree)).map (List.foldl take state) := by
  induction items generalizing state with
  | nil => exact reads_pure state
  | cons a items ih =>
    rw [List.foldlM_cons]
    refine ((hstep state a).bind fun next => ih next).congr fun tree => ?_
    rw [List.mapM_cons]
    rcases piece tree a with fault | b
    · rfl
    · show (items.mapM (piece tree)).map _ =
        Except.map (List.foldl take state) (items.mapM (piece tree) >>= fun bs => .ok (b :: bs))
      rcases items.mapM (piece tree) with fault | bs <;> rfl

end

/-! ### The steps of a run -/

/-- The step `readFile` answers with the `content` of the file. -/
theorem reads_readFile (path : Path) : Reads (readFile path) fun tree => tree.content path :=
  reads_tree .file fun tree => tree.read path

/-- The step `readText?` answers with the `text?` of the file. -/
theorem reads_readText? (path : Path) : Reads (readText? path) fun tree => tree.text? path :=
  (reads_readFile path).bind fun content =>
    reads_pure ((Utf8.decode? content).map withLineFeeds)

/-- The step `listFiles` answers with the paths of `filesOf`. -/
theorem reads_listFiles (directory : Path) :
    Reads (listFiles directory) fun tree => tree.filesOf directory := by
  refine (reads_tree .file fun tree => tree.files? directory).bind fun files => ?_
  cases files with
  | none => exact reads_throw _
  | some paths => exact reads_pure paths

/-- The step `loadOperations` answers with the `definitions` of the catalog file. -/
theorem reads_loadOperations (path : Path) :
    Reads (loadOperations path) fun tree => tree.definitions path := by
  simp only [loadOperations, FileTree.definitions]
  by_cases hending : textEndings.contains path.extension = true
  · simp only [if_pos hending]
    refine (reads_readText? path).bind fun text => ?_
    cases text with
    | none => exact reads_throw _
    | some t => exact (reads_ofExcept id (textOperations t)).congr fun _ => mapError_id _
  · simp only [if_neg hending]
    refine (reads_readFile path).bind fun content => ?_
    exact (reads_ofExcept id (binaryOperations content)).congr fun _ => mapError_id _

/-- The step `mergeFile` takes an override file in if it is a text that parses, and leaves the state
otherwise. -/
theorem reads_mergeFile (verbose : Bool) (state : Refinement) (path : Path) :
    Reads (mergeFile verbose state path)
      fun tree => (tree.overrideFile path).map state.after := by
  refine ((reads_readText? path).bind
    (g := fun text _ => .ok (state.after (path, text))) fun text => ?_).congr fun tree => ?_
  · rw [Refinement.after]
    cases state.take? path text with
    | none => exact (reads_warn _).bind fun _ => reads_pure state
    | some refined => exact (reads_sayIf verbose _).bind fun _ => reads_pure refined
  · rw [FileTree.overrideFile]
    rcases tree.text? path with fault | text <;> rfl

/-- The step `mergeDirectory` takes in the override files of a directory in the order of their
names. -/
theorem reads_mergeDirectory (verbose : Bool) (state : Refinement) (directory : Path) :
    Reads (mergeDirectory verbose state directory)
      fun tree => (tree.overrideFiles directory).map (List.foldl Refinement.after state) := by
  refine ((reads_listFiles directory).bind fun files =>
    reads_foldlM (reads_mergeFile verbose) state files).congr fun tree => ?_
  rw [FileTree.overrideFiles]
  rcases tree.filesOf directory with fault | files <;> rfl

/-- The step `mergeDirectories` takes in the override files directory by directory. -/
theorem reads_mergeDirectories (verbose : Bool) (store : Api.Store) (directories : List Path) :
    Reads (mergeDirectories verbose store directories)
      fun tree => (directories.mapM tree.overrideFiles).map fun batches =>
        batches.flatten.foldl Refinement.after ⟨store, []⟩ := by
  refine (reads_foldlM (reads_mergeDirectory verbose) ⟨store, []⟩ directories).congr fun tree => ?_
  rcases directories.mapM tree.overrideFiles with fault | batches
  · rfl
  · exact congrArg Except.ok List.foldl_flatten.symm

/-- The step `loadCatalog` answers with the signatures and the documentation of the `inputs`. -/
theorem reads_loadCatalog (verbose : Bool) (catalog : Text) (directories : List Text) :
    Reads (loadCatalog verbose catalog directories)
      fun tree => (tree.inputs (Path.ofText catalog) (directories.map Path.ofText)).map loaded := by
  refine ((reads_loadOperations (Path.ofText catalog)).bind fun definitions =>
    (reads_sayIf verbose _).bind fun _ =>
    (reads_mergeDirectories verbose (Api.Store.ofDefinitions definitions)
      (directories.map Path.ofText)).bind fun refined =>
    reads_pure (Catalog.signatures definitions, refined.store)).congr fun tree => ?_
  -- The texts of a directory are those of its files that have one.
  have htexts : (directories.map Path.ofText).mapM tree.overrides =
      ((directories.map Path.ofText).mapM tree.overrideFiles).map
        (List.map fun files => (files.map Prod.snd).reduceOption) := by
    rw [funext tree.overrides_eq, mapM_map]
  rw [FileTree.inputs, htexts]
  -- Both sides fail at the same step, or give the same catalog with the same store.
  rcases tree.definitions (Path.ofText catalog) with fault | definitions
  · rfl
  rcases (directories.map Path.ofText).mapM tree.overrideFiles with fault | batches
  · rfl
  · exact congrArg (fun store => Except.ok (Catalog.signatures definitions, store))
      (Refinement.store_foldl_after ⟨Api.Store.ofDefinitions definitions, []⟩ batches)

/-- The step `writeFile` writes the file as a whole or not at all. -/
theorem acts_writeFile (path : Path) (content : Bytes) :
    Acts (writeFile path content) fun tree =>
      ((tree.writeAtomically path content).1.mapError .file,
        (tree.writeAtomically path content).2) := by
  intro session
  exact reads_ofExcept .file (session.tree.writeAtomically path content).1
    { session with tree := (session.tree.writeAtomically path content).2 }

/-- What is `prepared` as the run goes through it, with the documentation loaded at once. -/
theorem prepared_eq (table : TypeTable) (width : Int) (request : Request) (tree : FileTree) :
    prepared table width request tree = (do
      (checkWidth width).mapError id
      let catalog ← given .catalog request.catalog
      let input ← (tree.inputs (Path.ofText catalog)
        (request.directories.map Path.ofText)).map loaded
      let binding ← given .binding request.binding
      let generated ←
        (generateModuleNamed table binding input.1 input.2.documentation?).2.mapError .emit
      let output ← given .output request.output
      return (Path.ofText output, finalText generated.code request.license,
        generated.report)) := by
  rw [prepared, mapError_id]
  -- Both sides go through the same steps, so they are taken one after the other.
  rcases checkWidth width with fault | ⟨⟩
  · rfl
  rcases given .catalog request.catalog with fault | catalog
  · rfl
  show tree.inputs _ _ >>= _ = (tree.inputs _ _).map _ >>= _
  rcases tree.inputs (Path.ofText catalog) (request.directories.map Path.ofText) with
    fault | ⟨definitions, overrides⟩
  · rfl
  rcases given .binding request.binding with fault | binding
  · rfl
  obtain ⟨ops, store, hloaded⟩ : ∃ ops store, loaded (definitions, overrides) = (ops, store) :=
    ⟨_, _, rfl⟩
  -- The run on the inputs is the named module on the loaded ones, formatted.
  have hrun : (run table binding definitions overrides).2 =
      (generateModuleNamed table binding ops store.documentation?).2.map
        fun m => (Layout.format m.code, m.report) := by
    cases hloaded
    rfl
  show (run table binding definitions overrides).2.mapError RunFault.emit >>= _ =
    (generateModuleNamed table binding (loaded (definitions, overrides)).1 _).2.mapError
      RunFault.emit >>= _
  rw [hrun, hloaded]
  rcases (generateModuleNamed table binding ops store.documentation?).2 with fault | generated <;>
    rfl

/-- A whole run of `generate` is its preparations and the write behind them, as a function of the
tree alone. -/
theorem generate_acts (table : TypeTable) (width : Int) (request : Request) :
    Acts (generate table width request)
      fun tree => written (prepared table width request tree) tree := by
  have hfinish : ∀ fault tree, written (.error fault) tree = (.error fault, tree) := fun _ _ => rfl
  simp only [prepared_eq]
  -- The steps in front of the write only read, so each of them leaves the tree to the next.
  refine (reads_ofExcept id (checkWidth width)).bind_acts written hfinish fun _ => ?_
  refine (reads_required .catalog request.catalog).bind_acts written hfinish fun catalog => ?_
  refine (reads_loadCatalog request.verbose catalog request.directories).bind_acts written hfinish
    fun input => ?_
  obtain ⟨ops, store⟩ := input
  refine (reads_required .binding request.binding).bind_acts written hfinish fun binding => ?_
  rcases generateModuleNamed table binding ops store.documentation? with ⟨warnings, result⟩
  refine (reads_warn warnings).acts_behind ?_
  refine (reads_ofExcept .emit result).bind_acts written hfinish fun generated => ?_
  refine (reads_required .output request.output).bind_acts written hfinish fun output => ?_
  -- From here on nothing can fail, and all that is left is said.
  refine (acts_writeFile _ _).bind_answer fun _ => ?_
  exact (reads_sayIf _ _).acts_behind ((reads_sayIf _ _).acts_behind (reads_pure _))

end Run

end TypedOps
