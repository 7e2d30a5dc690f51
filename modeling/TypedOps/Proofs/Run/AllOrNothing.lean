import TypedOps.Proofs.Files.Atomic
import TypedOps.Proofs.Run.Inputs

/-!
# `TypedOps.Proofs.Run.AllOrNothing`: a run writes its module or nothing

A run makes the whole text before it touches a file, and then writes it through a temporary
file. So there are two ways for it to end. `generate_allOrNothing` says what the tree holds
behind each of them, for every tree, request and pointer width.

* The run ends with a fault. The files are the same, also if the fault came with the temporary
  file in place. Directories that were made for the output may stay.
* The run gives its report. The output holds the text, and every other file is as it was. That
  includes the catalog and the override files, unless one of them is the output.
-/

set_option autoImplicit false

namespace TypedOps

/-- What a run has `prepared` before it writes, and from what: each input is read, the module is
made of it, and the output is named. -/
theorem prepared_eq_ok_iff (table : TypeTable) (width : Int) (request : Request) (tree : FileTree)
    (target : Path) (text : Text) (report : Report) :
    prepared table width request tree = .ok (target, text, report) ↔
      width = requiredWidth ∧ ∃ catalog binding output definitions overrides code,
        request.catalog = some catalog ∧ request.binding = some binding ∧
        request.output = some output ∧
        tree.inputs (Path.ofText catalog) (request.directories.map Path.ofText) =
          .ok (definitions, overrides) ∧
        (run table binding definitions overrides).2 = .ok (code, report) ∧
        target = Path.ofText output ∧ text = Layout.withHeader code request.license := by
  simp only [prepared, bind_eq_ok_iff, mapError_eq_ok_iff, checkWidth_eq_ok_iff, given_eq_ok_iff]
  constructor
  · rintro ⟨⟨⟩, rfl, catalog, hcatalog, ⟨definitions, overrides⟩, hinputs, binding, hbinding,
      ⟨code, report'⟩, hcode, output, houtput, h⟩
    cases h
    exact ⟨rfl, catalog, binding, output, definitions, overrides, code, hcatalog, hbinding, houtput,
      hinputs, hcode, rfl, rfl⟩
  · rintro ⟨rfl, catalog, binding, output, definitions, overrides, code, hcatalog, hbinding,
      houtput, hinputs, hcode, rfl, rfl⟩
    exact ⟨(), rfl, catalog, hcatalog, (definitions, overrides), hinputs, binding, hbinding,
      (code, report), hcode, output, houtput, rfl⟩

/-- A run that ends in `written` with a fault leaves the files as they are. One that does not has
written the text it has made, and no other file. -/
theorem written_cases (preparations : Except RunFault (Path × Text × Report)) (tree : FileTree) :
    match written preparations tree with
    | (.error _, after) => FileTree.SameFiles tree after
    | (.ok report, after) => ∃ target text, preparations = .ok (target, text, report) ∧
        FileTree.Wrote tree after target (Utf8.encode text) := by
  rcases preparations with fault | ⟨target, text, report⟩
  · exact FileTree.SameFiles.refl tree
  · have hcases := FileTree.writeAtomically_cases tree target (Utf8.encode text)
    rw [written]
    rcases hwrite : tree.writeAtomically target (Utf8.encode text) with ⟨fault | ⟨⟩, after⟩
    · simp only [hwrite] at hcases
      exact hcases
    · simp only [hwrite] at hcases
      exact ⟨target, text, rfl, hcases⟩

/-- A run of `generate` that ends with a fault, at whatever step, leaves the files of the tree as
they are: each old one with its bytes, and no new one, the temporary file included. A run that gives
a report has written one file, at the place of the output, and every other file is as it was. The
content is the UTF-8 form of the laid out code with its head, for the code that the catalog and the
override files of the tree give. -/
theorem generate_allOrNothing (table : TypeTable) (width : Int) (request : Request)
    (session : Session) :
    match (generate table width request).run session with
    | (.error _, after) => FileTree.SameFiles session.tree after.tree
    | (.ok report, after) =>
      ∃ catalog binding output definitions overrides code,
        request.catalog = some catalog ∧ request.binding = some binding ∧
        request.output = some output ∧
        session.tree.inputs (Path.ofText catalog) (request.directories.map Path.ofText) =
          .ok (definitions, overrides) ∧
        (run table binding definitions overrides).2 = .ok (code, report) ∧
        FileTree.Wrote session.tree after.tree (Path.ofText output)
          (Utf8.encode (Layout.withHeader code request.license)) := by
  obtain ⟨printed, warnings, hrun⟩ := Run.generate_acts table width request session
  have hcases := written_cases (prepared table width request session.tree) session.tree
  rw [hrun]
  rcases hwritten : written (prepared table width request session.tree) session.tree with
    ⟨fault | report, after⟩
  · simpa only [hwritten] using hcases
  · simp only [hwritten] at hcases ⊢
    obtain ⟨target, text, hprepared, hwrote⟩ := hcases
    obtain ⟨-, catalog, binding, output, definitions, overrides, code, hcatalog, hbinding, houtput,
      hinputs, hcode, rfl, rfl⟩ := (prepared_eq_ok_iff ..).mp hprepared
    exact ⟨catalog, binding, output, definitions, overrides, code, hcatalog, hbinding, houtput,
      hinputs, hcode, hwrote⟩

/-- A tree with a catalog of one operation, in the file that `moduleRequest` names. -/
def Sample.catalogTree : FileTree :=
  ⟨[(["ops.pbtxt".toList],
      .file (Utf8.encode "op \x7b name: \"Neg\" summary: \"Negates.\" \x7d"))]⟩

/-- A `Request` for the module of the catalog. No directory of overrides is named. -/
def Sample.moduleRequest : Request :=
  { catalog := some "ops.pbtxt", directories := [], output := some "out.py" }

/-- The run of `moduleRequest` gives its report, and the module is in the file of the output. -/
theorem generate_allOrNothing_sample : ∃ report after,
    (generate TypeTable.standard 64 Sample.moduleRequest).run { tree := Sample.catalogTree } =
        (.ok report, after) ∧
      report.emitted = ["Neg".toList] ∧
      ∃ content, FileTree.Wrote Sample.catalogTree after.tree (Path.ofText "out.py") content := by
  have hcases := generate_allOrNothing TypeTable.standard 64 Sample.moduleRequest
    { tree := Sample.catalogTree }
  -- The run is evaluated, up to the names that were emitted.
  have hreport : ((generate TypeTable.standard 64 Sample.moduleRequest).run
      { tree := Sample.catalogTree }).1.toOption.map (·.emitted) = some ["Neg".toList] := by
    decide +kernel
  rcases hrun : (generate TypeTable.standard 64 Sample.moduleRequest).run
      { tree := Sample.catalogTree } with ⟨fault | report, after⟩
  -- It has ended without a fault, so the second case of the general theorem holds.
  · rw [hrun] at hreport
    cases hreport
  · rw [hrun] at hcases hreport
    obtain ⟨catalog, binding, output, definitions, overrides, code, -, -, houtput, -, -,
      hwrote⟩ := hcases
    cases houtput
    exact ⟨report, after, rfl, Option.some_inj.mp hreport, _, hwrote⟩

end TypedOps
