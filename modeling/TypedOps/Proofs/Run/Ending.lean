import TypedOps.Proofs.Catalog.Kept
import TypedOps.Proofs.Emit.Refusals
import TypedOps.Proofs.Files.NullFree
import TypedOps.Proofs.Run.AllOrNothing
import TypedOps.Run.CommandLine

/-!
# `TypedOps.Proofs.Run.Ending`: how the program ends

A program that has accepted its command line is done, or it has failed and says why, or a fault
escapes that nobody looks out for. `Unguarded` says in the open when the last one happens. A
value has been taken away from an option that needs one; or a catalog in text form has a number
out of range; or an operation that gets a method has a default that documentation cannot show.

* `escapes_prepared_iff`: the preparations of a run end with a fault of this kind exactly then.
  Each step has its own lemma, and `escapes_bind_iff` puts them in a row.
* `registered_of_parse`: a command line that is accepted names a binding that is registered, or
  none.
* `runProgram_ends`: the program is done with its module written, or has failed with a
  line for the user and the files as they were, unless it is unguarded.
-/

set_option autoImplicit false

namespace TypedOps

open Catalog (OperationDef)

/-! ### Faults that nobody looks out for -/

section
variable {α β : Type}

/-- A result is a fault without `isReported`: nothing in the program looks out for it, so it leaves
the program without a status. -/
def Escapes (result : Except RunFault α) : Prop :=
  ∃ fault, result = .error fault ∧ fault.isReported = false

/-- A computation of two steps `Escapes` exactly when the first one does, or the next one does
behind its answer. -/
theorem escapes_bind_iff (x : Except RunFault α) (f : α → Except RunFault β) :
    Escapes (x >>= f) ↔ Escapes x ∨ ∃ a, x = .ok a ∧ Escapes (f a) := by
  cases x <;> simp [Escapes, bind, Except.bind]

/-- What a function makes of an answer changes nothing about whether a computation `Escapes`. -/
theorem escapes_map_iff (f : α → β) (x : Except RunFault α) : Escapes (x.map f) ↔ Escapes x := by
  cases x <;> simp [Escapes, Except.map]

/-- An answer is no fault that `Escapes`, nor any other. -/
theorem not_escapes_ok (a : α) : ¬Escapes (.ok a : Except RunFault α) := by
  rintro ⟨fault, h, -⟩
  cases h

/-- Steps over a list by `mapM` end with no fault that escapes if none of the steps does. -/
theorem not_escapes_mapM {f : α → Except RunFault β} {items : List α}
    (h : ∀ a ∈ items, ¬Escapes (f a)) : ¬Escapes (items.mapM f) := by
  rintro ⟨fault, hfault, hsilent⟩
  obtain ⟨before, a, after, rfl, -, ha⟩ := (mapM_eq_error_iff ..).mp hfault
  exact h a (by simp) ⟨fault, ha, hsilent⟩

/-- The faults that operations on files give are reported to the user, except the one for a path
with the code point zero. `FileTree.Accepts` rules that one out. -/
theorem not_escapes_file {result : Except FileFault α} (h : FileTree.Accepts result) :
    ¬Escapes (result.mapError .file) := by
  rintro ⟨fault, hfault, hsilent⟩
  cases result with
  | ok a => cases hfault
  | error f =>
    cases hfault
    cases f with
    | nullInPath path => exact h path rfl
    | _ => cases hsilent

end

/-! ### What a run reads -/

section
variable {tree : FileTree} {path : Path}

/-- The `content` of a file whose path has no code point zero is read without a fault that escapes.
-/
theorem not_escapes_content (h : path.NullFree) : ¬Escapes (tree.content path) :=
  not_escapes_file (FileTree.accepts_read h)

/-- The `text?` of a file is read without a fault that escapes, too: bytes that are not UTF-8 are an
answer. -/
theorem not_escapes_text? (h : path.NullFree) : ¬Escapes (tree.text? path) := by
  rw [FileTree.text?, escapes_map_iff]
  exact not_escapes_content h

/-- A catalog in text form has a number for an element type that is out of range, so that
`Catalog.ofText` fails with this fault. -/
def FileTree.HasNumberOutOfRange (tree : FileTree) (path : Path) : Prop :=
  textEndings.contains path.extension = true ∧
    ∃ t, tree.text? path = .ok (some t) ∧ Catalog.ofText t = .error .outOfRange

/-- The operations of a catalog file give a fault that escapes exactly when it
`HasNumberOutOfRange`. -/
theorem escapes_definitions_iff (h : path.NullFree) :
    Escapes (tree.definitions path) ↔ tree.HasNumberOutOfRange path := by
  rw [FileTree.definitions, FileTree.HasNumberOutOfRange]
  split
  · next hending =>
    rw [escapes_bind_iff]
    simp only [not_escapes_text? h, false_or, hending, true_and]
    -- Reading the file brings no fault that escapes, so it has to come from the text.
    constructor
    · rintro ⟨text, htext, fault, hfault, hsilent⟩
      cases text with
      | none =>
        cases hfault
        cases hsilent
      | some t =>
        refine ⟨t, htext, ?_⟩
        simp only [textOperations] at hfault
        split at hfault
        · cases hfault
        · cases hfault
          cases hsilent
        · assumption
    · rintro ⟨t, htext, hrange⟩
      refine ⟨some t, htext, .catalogOutOfRange, ?_, rfl⟩
      simp only [textOperations, hrange]
  · next hending =>
    -- A binary catalog that does not decode is a fault that is caught.
    rw [escapes_bind_iff]
    simp only [not_escapes_content h, false_or, hending, Bool.false_eq_true, false_and, iff_false]
    rintro ⟨content, -, fault, hfault, hsilent⟩
    simp only [binaryOperations] at hfault
    split at hfault
    · cases hfault
    · cases hfault
      cases hsilent

/-- Whatever catalog a run has read is storable, in either form: `storable_of_decode?` and
`storable_of_ofText` are about the two ways to read one. -/
theorem FileTree.storable_of_inputs {directories : List Path} {definitions : List OperationDef}
    {overrides : List Text} (h : tree.inputs path directories = .ok (definitions, overrides)) :
    ∀ definition ∈ definitions, definition.Storable := by
  obtain ⟨operations, hoperations, h⟩ := (bind_eq_ok_iff ..).mp h
  obtain ⟨texts, -, h⟩ := (bind_eq_ok_iff ..).mp h
  cases h
  rw [FileTree.definitions] at hoperations
  -- The file is read as a text or as bytes, by the ending of its name.
  split at hoperations
  · obtain ⟨text, -, htext⟩ := (bind_eq_ok_iff ..).mp hoperations
    cases text with
    | none => cases htext
    | some t =>
      simp only [textOperations] at htext
      split at htext
      · next operations hread =>
        cases htext
        exact Catalog.storable_of_ofText hread
      · cases htext
      · cases htext
  · obtain ⟨content, -, hcontent⟩ := (bind_eq_ok_iff ..).mp hoperations
    simp only [binaryOperations] at hcontent
    split at hcontent
    · next operations hdecode =>
      cases hcontent
      exact Catalog.storable_of_decode? hdecode
    · cases hcontent

/-- The step `filesOf` answers exactly where the directory is there and its files can be listed. -/
theorem filesOf_eq_ok_iff (paths : List Path) :
    tree.filesOf path = .ok paths ↔ tree.files? path = .ok (some paths) := by
  rw [FileTree.filesOf, bind_eq_ok_iff]
  simp only [mapError_eq_ok_iff]
  constructor
  · rintro ⟨_ | paths', hpaths, h⟩
    · cases h
    · cases h
      exact hpaths
  · exact fun hpaths => ⟨some paths, hpaths, rfl⟩

/-- The `overrides` of a directory give no fault that escapes, whatever its files hold. -/
theorem not_escapes_overrides (htree : tree.NullFree) (h : path.NullFree) :
    ¬Escapes (tree.overrides path) := by
  rw [FileTree.overrides, escapes_bind_iff]
  -- Listing the directory may fail, and so may reading each of its files.
  rintro (hfiles | ⟨files, hfiles, htexts⟩)
  · rw [FileTree.filesOf, escapes_bind_iff] at hfiles
    rcases hfiles with hfiles | ⟨files, -, fault, hfault, hsilent⟩
    · exact not_escapes_file (FileTree.accepts_files? h) hfiles
    · cases files with
      | none =>
        cases hfault
        cases hsilent
      | some paths => cases hfault
  · rw [escapes_map_iff] at htexts
    have hpaths := FileTree.nullFree_of_mem_files? htree h ((filesOf_eq_ok_iff files).mp hfiles)
    exact not_escapes_mapM (fun file hfile => not_escapes_text? (hpaths file hfile)) htexts

/-- The `inputs` that a run reads give a fault that escapes exactly when the catalog does, since
overrides give none. -/
theorem escapes_inputs_iff (htree : tree.NullFree) {directories : List Path} (h : path.NullFree)
    (hdirectories : ∀ directory ∈ directories, directory.NullFree) :
    Escapes (tree.inputs path directories) ↔ tree.HasNumberOutOfRange path := by
  rw [FileTree.inputs, escapes_bind_iff, escapes_definitions_iff h, or_iff_left]
  rintro ⟨definitions, -, hrest⟩
  rcases (escapes_bind_iff _ _).mp hrest with htexts | ⟨texts, -, hrest⟩
  · exact not_escapes_mapM (fun directory hdirectory =>
      not_escapes_overrides htree (hdirectories directory hdirectory)) htexts
  · exact not_escapes_ok _ hrest

end

/-! ### What a run is asked for -/

/-- A setting that is to be `given` is a fault that escapes exactly when its value is missing. -/
theorem escapes_given_iff (setting : Setting) (value : Option Text) :
    Escapes (given setting value) ↔ value = none := by
  cases value with
  | none => exact iff_of_true ⟨_, rfl, by cases setting <;> rfl⟩ rfl
  | some value => exact iff_of_false (not_escapes_ok value) (Option.some_ne_none value)

/-- A request whose paths have `Text.NullFree`. -/
structure Request.NullFree (request : Request) : Prop where
  catalog : ∀ path ∈ request.catalog, Text.NullFree path
  directories : ∀ path ∈ request.directories, Text.NullFree path
  output : ∀ path ∈ request.output, Text.NullFree path

/-- A request whose binding is registered, so that `Binding.ofName?` finds it, if the request names
one. -/
def Request.Registered (request : Request) : Prop :=
  ∀ name ∈ request.binding, ∃ b, Binding.ofName? name = some b

/-- What a run comes upon that nobody looks out for, in the order of its steps. Each case makes the
run one that `Escapes`. -/
inductive Unguarded (request : Request) (tree : FileTree) : Prop where
  /-- The value of the option for the catalog has been taken away. -/
  | noCatalog (missing : request.catalog = none)
  /-- A catalog in text form has a number out of range. -/
  | outOfRange {catalog : Text} (hcatalog : request.catalog = some catalog)
      (range : tree.HasNumberOutOfRange (Path.ofText catalog))
  /-- Catalog and overrides are read, but the value of the option for the binding has been
  taken away. -/
  | noBinding {catalog : Text} {inputs : List OperationDef × List Text}
      (hcatalog : request.catalog = some catalog)
      (hinputs : tree.inputs (Path.ofText catalog) (request.directories.map Path.ofText) =
        .ok inputs)
      (missing : request.binding = none)
  /-- An operation that gets a method has a default that documentation cannot show. -/
  | unshownDefault {catalog binding : Text} {definitions : List OperationDef}
      {overrides : List Text} (hcatalog : request.catalog = some catalog)
      (hinputs : tree.inputs (Path.ofText catalog) (request.directories.map Path.ofText) =
        .ok (definitions, overrides))
      (hbinding : request.binding = some binding)
      (unshown : HasUnshownDefault TypeTable.standard definitions overrides)
  /-- The code is made, but the value of the option for the output has been taken away. -/
  | noOutput {catalog binding : Text} {definitions : List OperationDef}
      {overrides : List Text} (hcatalog : request.catalog = some catalog)
      (hinputs : tree.inputs (Path.ofText catalog) (request.directories.map Path.ofText) =
        .ok (definitions, overrides))
      (hbinding : request.binding = some binding)
      (shown : ¬HasUnshownDefault TypeTable.standard definitions overrides)
      (missing : request.output = none)

/-- A width other than `requiredWidth` is reported to the user. -/
theorem not_escapes_checkWidth (width : Int) : ¬Escapes (checkWidth width) := by
  rintro ⟨fault, hfault, hsilent⟩
  rw [checkWidth] at hfault
  split at hfault
  · cases hfault
  · cases hfault
    cases hsilent

/-- To `run` over a storable catalog, for a registered binding, gives a fault that escapes exactly
when a surfaced operation has a default that its kind does not fit. -/
theorem escapes_run_iff {name : Text} {b : Binding} (hname : Binding.ofName? name = some b)
    {catalog : List OperationDef} (hcatalog : ∀ definition ∈ catalog, definition.Storable)
    (overrides : List Text) :
    Escapes ((run TypeTable.standard name catalog overrides).2.mapError .emit) ↔
      HasUnshownDefault TypeTable.standard catalog overrides := by
  obtain ⟨hexists, hkind⟩ : ((∃ fault, (run TypeTable.standard name catalog overrides).2 =
      .error fault) ↔ HasUnshownDefault TypeTable.standard catalog overrides) ∧
      ∀ fault, (run TypeTable.standard name catalog overrides).2 = .error fault →
        ∃ f, fault = .badDefault f := run_eq_error_iff [] hname hcatalog overrides
  rw [← hexists]
  rcases hrun : (run TypeTable.standard name catalog overrides).2 with fault | result
  · obtain ⟨f, rfl⟩ := hkind fault hrun
    exact iff_of_true ⟨_, rfl, rfl⟩ ⟨_, rfl⟩
  · exact iff_of_false (not_escapes_ok result) (by rintro ⟨fault, h⟩; cases h)

/-- The preparations of a run end with a fault that escapes exactly when the run is `Unguarded`. -/
theorem escapes_prepared_iff (width : Int) {request : Request} {tree : FileTree}
    (hpaths : request.NullFree) (htree : tree.NullFree) (hregistered : request.Registered) :
    Escapes (prepared TypeTable.standard width request tree) ↔
      width = requiredWidth ∧ Unguarded request tree := by
  have hreads : ∀ catalog ∈ request.catalog,
      Escapes (tree.inputs (Path.ofText catalog) (request.directories.map Path.ofText)) ↔
        tree.HasNumberOutOfRange (Path.ofText catalog) := by
    intro catalog hcatalog
    refine escapes_inputs_iff htree (Path.nullFree_ofText (hpaths.catalog catalog hcatalog)) ?_
    intro directory hdirectory
    obtain ⟨t, ht, rfl⟩ := List.mem_map.mp hdirectory
    exact Path.nullFree_ofText (hpaths.directories t ht)
  simp only [prepared, escapes_bind_iff, not_escapes_checkWidth, escapes_given_iff, given_eq_ok_iff,
    checkWidth_eq_ok_iff, false_or, mapError_eq_ok_iff]
  constructor
  · rintro ⟨⟨⟩, rfl, hmissing | ⟨catalog, hcatalog, hrest⟩⟩
    · exact ⟨rfl, .noCatalog hmissing⟩
    refine ⟨rfl, ?_⟩
    -- Each step either fails with a fault that escapes, which is one of the cases, or gives what
    -- the next one needs.
    rcases hrest with hrange | ⟨⟨definitions, overrides⟩, hinputs, hrest⟩
    · exact .outOfRange hcatalog ((hreads catalog hcatalog).mp hrange)
    rcases hrest with hmissing | ⟨binding, hbinding, hrest⟩
    · exact .noBinding hcatalog hinputs hmissing
    obtain ⟨b, hb⟩ := hregistered binding hbinding
    have hruns := escapes_run_iff hb (FileTree.storable_of_inputs hinputs) overrides
    rcases hrest with hunshown | ⟨⟨code, report⟩, hcode, hrest⟩
    · exact .unshownDefault hcatalog hinputs hbinding (hruns.mp hunshown)
    rcases hrest with hmissing | ⟨output, -, hdone⟩
    -- Without a file to write to, the module has been made, so all its defaults could be shown.
    · refine .noOutput hcatalog hinputs hbinding (fun hunshown => ?_) hmissing
      obtain ⟨fault, hfault, -⟩ := hruns.mpr hunshown
      rw [hcode] at hfault
      cases hfault
    · exact absurd hdone (not_escapes_ok _)
  · rintro ⟨rfl, hunguarded⟩
    refine ⟨(), rfl, ?_⟩
    -- Each case names the step that fails, and the steps before it succeed.
    cases hunguarded with
    | noCatalog hmissing => exact .inl hmissing
    | outOfRange hcatalog hrange =>
      exact .inr ⟨_, hcatalog, .inl ((hreads _ hcatalog).mpr hrange)⟩
    | noBinding hcatalog hinputs hmissing =>
      exact .inr ⟨_, hcatalog, .inr ⟨_, hinputs, .inl hmissing⟩⟩
    | unshownDefault hcatalog hinputs hbinding hunshown =>
      obtain ⟨b, hb⟩ := hregistered _ hbinding
      exact .inr ⟨_, hcatalog, .inr ⟨_, hinputs, .inr ⟨_, hbinding,
        .inl ((escapes_run_iff hb (FileTree.storable_of_inputs hinputs) _).mpr hunshown)⟩⟩⟩
    | noOutput hcatalog hinputs hbinding hshown hmissing =>
      obtain ⟨b, hb⟩ := hregistered _ hbinding
      -- That every default is shown means that the module is made, so the missing output is
      -- noticed.
      obtain ⟨hexists, -⟩ := run_eq_error_iff [] hb (FileTree.storable_of_inputs hinputs) _
      obtain ⟨⟨code, report⟩, hcode⟩ :=
        Classical.not_not.mp ((exists_error_iff _).not.mp (hexists.not.mpr hshown))
      exact .inr ⟨_, hcatalog, .inr ⟨_, hinputs, .inr ⟨_, hbinding,
        .inr ⟨(code, report), hcode, .inl hmissing⟩⟩⟩⟩

/-- A whole run, ending in `written`, has a fault that escapes exactly when its preparations do,
since what the write refuses is reported to the user. -/
theorem escapes_written_iff {preparations : Except RunFault (Path × Text × Report)}
    (hpreparations : ∀ target text report, preparations = .ok (target, text, report) →
      target.NullFree) (tree : FileTree) :
    Escapes (written preparations tree).1 ↔ Escapes preparations := by
  rcases preparations with fault | ⟨target, text, report⟩
  · exact ⟨fun ⟨f, hf, hsilent⟩ => ⟨f, by cases hf; rfl, hsilent⟩,
      fun ⟨f, hf, hsilent⟩ => ⟨f, by cases hf; rfl, hsilent⟩⟩
  · refine iff_of_false ?_ (not_escapes_ok _)
    show ¬Escapes (((tree.writeAtomically target (Utf8.encode text)).1.mapError .file).map _)
    rw [escapes_map_iff]
    exact not_escapes_file
      (FileTree.accepts_writeAtomically tree (hpreparations target text report rfl) _)

namespace CommandLine

/-! ### What a command line names -/

/-- Options whose binding is registered, so that `Binding.ofName?` finds it, if they name one. -/
def Options.Registered (o : Options) : Prop :=
  ∀ name ∈ o.binding, ∃ b, Binding.ofName? name = some b

namespace Options.Registered

variable {o o' : Options}

/-- A run of values for the positional arguments names no binding, so `takeRun` keeps it. -/
theorem takeRun (h : o.Registered) (run : List Text) : (o.takeRun run).Registered := by
  rw [Options.takeRun]
  split <;> exact h

/-- An option without a value names no binding, so `setPlain` keeps it. -/
theorem setPlain (h : o.Registered) (flag : Flag) : (o.setPlain flag).Registered := by
  cases flag <;> exact h

/-- Giving an option a value by `setValue` looks the value up before taking it as the name of a
binding. -/
theorem setValue (h : o.Registered) {flag : Flag} {value : Text}
    (hset : o.setValue flag value = .ok o') : o'.Registered := by
  -- Only the option for the binding stores a binding, and it stores a name that it has found.
  cases flag with
  | binding =>
    simp only [Options.setValue] at hset
    split at hset
    · next name _ =>
      split at hset
      · next hname =>
        cases hset
        rintro _ ⟨⟩
        exact Option.isSome_iff_exists.mp hname
      · cases hset
    · cases hset
      exact nofun
  | _ =>
    cases hset
    exact h

/-- The letters of one word stand for options without a value, so `takeLetters` keeps the binding.
-/
theorem takeLetters (h : o.Registered) {flag : Flag} {letters : Text}
    (htake : o.takeLetters flag letters = .ok o') : o'.Registered := by
  induction letters generalizing o flag with
  | nil => cases htake
  | cons c rest ih =>
    unfold Options.takeLetters at htake
    split at htake
    · cases htake
    · cases htake
      exact (h.setPlain flag).setPlain _
    · exact ih (h.setPlain flag) htake

/-- An option without a value keeps the binding registered under `takePlain`, and so do the letters
behind it in its word. -/
theorem takePlain (h : o.Registered) {flag : Flag} {spelling : Text} {attached : Option Text}
    (htake : o.takePlain flag spelling attached = .ok o') : o'.Registered := by
  cases attached with
  | none =>
    cases htake
    exact h.setPlain flag
  | some more =>
    simp only [Options.takePlain] at htake
    split at htake
    · cases htake
    · exact h.takeLetters htake

end Options.Registered

/-- Words taken one by one with `takeWords` keep the binding registered. -/
theorem registered_of_takeWords {o o' : Options} (h : o.Registered) {run : List Text}
    {words : List Word} (htake : takeWords o run words = .ok o') : o'.Registered := by
  have hbefore : ∀ (o : Options) (run : List Text), o.Registered →
      (if run.isEmpty then o else o.takeRun run.reverse).Registered := by
    intro o run h
    split
    · exact h
    · exact h.takeRun _
  -- Options change where a run of values ends, where an option is set, and nowhere else.
  fun_induction takeWords o run words with
  | case1 o run =>
    cases htake
    split
    · exact h
    · exact h.takeRun _
  | case2 o run rest t ih => exact ih h htake
  | case3 o run rest ih => exact ih h htake
  | case4 o run rest before t ih => exact ih (hbefore o run h) htake
  | case5 => cases htake
  | case6 o run rest before flag spelling attached _ next hplain =>
    cases htake
    exact (hbefore o run h).takePlain hplain
  | case7 o run rest before flag spelling attached _ next hplain _ ih =>
    exact ih ((hbefore o run h).takePlain hplain) htake
  | case8 => cases htake
  | case9 o run rest before flag spelling _ value next hset ih =>
    exact ih ((hbefore o run h).setValue hset) htake
  | case10 => cases htake
  | case11 o run before flag spelling _ value more next hset ih =>
    exact ih ((hbefore o run h).setValue hset) htake
  | case12 => cases htake

/-- A command line that `parse` accepts names a registered binding, or none. -/
theorem registered_of_parse {args : List Text} {options : Options}
    (h : parse args = .ok options) : options.Registered := by
  have hempty : ({} : Options).Registered := by
    rintro _ ⟨⟩
    exact ⟨.graph, rfl⟩
  obtain ⟨words, -, h⟩ := (bind_eq_ok_iff ..).mp h
  obtain ⟨o, ho, h⟩ := (bind_eq_ok_iff ..).mp h
  split at h
  · cases h
    exact registered_of_takeWords hempty ho
  · cases h

/-! ### The program -/

/-- With a command line that is accepted and asks for a run, `runProgram` ends as the run does. -/
theorem exists_runProgram_eq (width : Int) {args : List Text} {options : Options} (tree : FileTree)
    (hparse : parse args = .ok options) (hhelp : options.help = false) :
    ∃ printed warnings, runProgram TypeTable.standard width args tree =
      (endingOf (written (prepared TypeTable.standard width options.request tree) tree).1,
        ⟨(written (prepared TypeTable.standard width options.request tree) tree).2,
          printed, warnings⟩) := by
  obtain ⟨printed, warnings, hrun⟩ :=
    Run.generate_acts TypeTable.standard width options.request { tree := tree }
  refine ⟨printed, warnings, ?_⟩
  rw [runProgram, hparse]
  simp only [hhelp, Bool.false_eq_true, if_false]
  rw [hrun]

/-- What `runProgram` does with a command line that is accepted and asks for a run, on any tree.
Either it is done: the module is written and no other file has changed. Or it has failed: the user
is given a line that says why, and the files are as they were. Or a fault escapes, with the files as
they were; that is so exactly when the run is unguarded. -/
theorem runProgram_ends (width : Int) {args : List Text} {options : Options} (tree : FileTree)
    (hparse : parse args = .ok options) (hhelp : options.help = false)
    (hpaths : options.request.NullFree) (htree : tree.NullFree) :
    let outcome := runProgram TypeTable.standard width args tree
    (outcome.1.status? = some 0 ∧ ¬(width = requiredWidth ∧ Unguarded options.request tree) ∧
        ∃ target text report,
          prepared TypeTable.standard width options.request tree = .ok (target, text, report) ∧
          FileTree.Wrote tree outcome.2.tree target (Utf8.encode text)) ∨
      (outcome.1.status? = some 1 ∧ ¬(width = requiredWidth ∧ Unguarded options.request tree) ∧
        (∃ fault : RunFault, outcome.1.errorLine? = some ("tfopgen: error: " ++ fault.message)) ∧
        FileTree.SameFiles tree outcome.2.tree) ∨
      (outcome.1.status? = none ∧ (width = requiredWidth ∧ Unguarded options.request tree) ∧
        FileTree.SameFiles tree outcome.2.tree) := by
  intro outcome
  -- Faults that escape come from the preparations or from writing, and each is characterised by
  -- itself.
  have hescapes := escapes_prepared_iff width hpaths htree (registered_of_parse hparse)
  have htarget : ∀ target text report, prepared TypeTable.standard width options.request tree =
      .ok (target, text, report) → target.NullFree := by
    intro target text report hprepared
    obtain ⟨-, catalog, binding, output, definitions, overrides, code, -, -, houtput, -, -, rfl,
      -⟩ := (prepared_eq_ok_iff ..).mp hprepared
    exact Path.nullFree_ofText (hpaths.output output houtput)
  rw [← hescapes, ← escapes_written_iff htarget tree]
  have hcases := written_cases (prepared TypeTable.standard width options.request tree) tree
  obtain ⟨printed, warnings, hprogram⟩ := exists_runProgram_eq width tree hparse hhelp
  have hprogram : outcome = _ := hprogram
  rw [hprogram]
  rcases hwritten : written (prepared TypeTable.standard width options.request tree) tree with
    ⟨fault | report, after⟩
  -- The run has failed. Whether the fault is reported decides between the second and the third
  -- case.
  · simp only [hwritten] at hcases
    cases hreported : fault.isReported with
    | true =>
      have hending : endingOf (.error fault) = .failed fault := if_pos hreported
      simp only [hending]
      refine .inr (.inl ⟨rfl, ?_, ⟨fault, rfl⟩, hcases⟩)
      rintro ⟨fault', hfault', hsilent⟩
      cases hfault'
      rw [hreported] at hsilent
      cases hsilent
    | false =>
      have hending : endingOf (.error fault) = .escaped fault := if_neg (by simp [hreported])
      simp only [hending]
      exact .inr (.inr ⟨rfl, ⟨fault, rfl, hreported⟩, hcases⟩)
  -- The run has given its report, so the module has been written.
  · simp only [hwritten] at hcases
    obtain ⟨target, text, hprepared, hwrote⟩ := hcases
    exact .inl ⟨rfl, not_escapes_ok report, target, text, report, hprepared, hwrote⟩

/-- A `FileTree` with a catalog in text form and an empty directory of overrides. -/
def sampleTree (catalog : Text) : FileTree :=
  ⟨[(["ops.pbtxt".toList], .file (Utf8.encode catalog)), (["d".toList], .directory)]⟩

/-- A catalog with one operation and the given default of an attribute of type `float`. -/
def sampleCatalogText (default : Text) : Text :=
  "op \x7b name: \"Scale\" summary: \"Scale.\" attr \x7b name: \"by\" type: \"float\" " ++
    "default_value \x7b " ++ default ++ " \x7d \x7d \x7d"

/-- With a number as default, `runProgram` writes the module. -/
theorem runProgram_ends_sample :
    parse ["d".toList] = .ok { directories := some ["d".toList] } ∧
      (runProgram TypeTable.standard 64 ["d".toList]
        (sampleTree (sampleCatalogText "f: 1.5"))).1.status? = some 0 ∧
      ∃ target text, FileTree.Wrote (sampleTree (sampleCatalogText "f: 1.5"))
        (runProgram TypeTable.standard 64 ["d".toList]
          (sampleTree (sampleCatalogText "f: 1.5"))).2.tree target (Utf8.encode text) := by
  have hparse : parse ["d".toList] = .ok { directories := some ["d".toList] } := by decide
  have hpaths : ({ directories := some ["d".toList] } : Options).request.NullFree :=
    ⟨by rintro _ ⟨⟩; decide, by decide, by rintro _ ⟨⟩; decide⟩
  have htree : (sampleTree (sampleCatalogText "f: 1.5")).NullFree := by decide
  have hstatus : (runProgram TypeTable.standard 64 ["d".toList]
      (sampleTree (sampleCatalogText "f: 1.5"))).1.status? = some 0 := by
    -- The text is read character by character, so its characters are written out first.
    delta sampleCatalogText
    repeat rw [String.toList_ofList]
    decide +kernel
  refine ⟨hparse, hstatus, ?_⟩
  rcases runProgram_ends 64 (sampleTree (sampleCatalogText "f: 1.5")) hparse rfl hpaths htree with
    ⟨-, -, target, text, -, -, hwrote⟩ | ⟨hfailed, -⟩ | ⟨hescaped, -⟩
  · exact ⟨target, text, hwrote⟩
  · rw [hstatus] at hfailed
    cases hfailed
  · rw [hstatus] at hescaped
    cases hescaped

/-- A number past thirty-two bits is no element type, and a text is no float. The command line is
accepted, yet both faults escape `runProgram`, so neither run has a status. -/
theorem runProgram_escapes :
    parse ["d".toList] = .ok { directories := some ["d".toList] } ∧
      (runProgram TypeTable.standard 64 ["d".toList]
          (sampleTree (sampleCatalogText "type: 99999999999"))).1 =
        .escaped .catalogOutOfRange ∧
      (runProgram TypeTable.standard 64 ["d".toList]
          (sampleTree (sampleCatalogText "s: \"wide\""))).1 =
        .escaped (.emit (.badDefault .textAsNumber)) := by
  delta sampleCatalogText
  repeat rw [String.toList_ofList]
  decide +kernel

end CommandLine

end TypedOps
