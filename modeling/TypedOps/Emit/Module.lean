import TypedOps.Emit.Method
import TypedOps.Operation.Surface

/-!
# `TypedOps.Emit.Module`: the generated module

Operations are taken in the order of their names, whatever the order of the
catalog, so the same input always gives the same text. Each is either left out
for a reason, which is recorded, or gets its method. The first method that cannot
be written ends the run, and the warnings up to there stand.
-/

set_option autoImplicit false

namespace TypedOps

/-- What became of the operations: those with a method, and those without and
why, each in the order of names. -/
structure Report where
  emitted : List Text := []
  skipped : List (Text × SkipReason) := []

/-- What several operations come to: the blocks of their methods, the `Report`, the warnings, and
the fault that ended the run, if one did. -/
structure Progress where
  blocks : List (List Line) := []
  report : Report := {}
  warnings : List Warning := []
  fault? : Option EmitFault := none

/-- A module and the `Report` on what became of the operations. -/
structure GeneratedModule where
  code : Text
  report : Report

/-- Operations in the order of their names, which is `Text.le`; those of one name keep their order.
-/
def sortedByName (ops : List Operation) : List Operation :=
  ops.mergeSort fun a b => Text.le a.name b.name

/-- Take the operations one by one, those with a `skipReason?` without a method. The first fault
ends the walk, but warnings given before it stay. -/
def progress (table : TypeTable) (b : Binding) (docs : Text → Option Documentation) :
    List Operation → Progress
  | [] => {}
  | op :: rest =>
    match op.skipReason? table (docs op.name) with
    | some reason =>
      let p := progress table b docs rest
      { p with
        report := { p.report with skipped := (op.name, reason) :: p.report.skipped }
        warnings := op.skipWarnings reason ++ p.warnings }
    | none =>
      match op.methodBlock table b ((docs op.name).getD { name := op.name }) with
      | .error fault => { fault? := some fault }
      | .ok block =>
        let p := progress table b docs rest
        { p with
          blocks := block :: p.blocks
          report := { p.report with emitted := op.name :: p.report.emitted } }

/-- The docstring of the class that holds the methods. -/
def containerDocstring : List Text :=
  ["Graph operation constructors.",
    "",
    "The runtime graph class inherits from this container. It must provide",
    "\x60\x60make_name(op_type, name)\x60\x60 returning a unique operation name and a",
    "\x60\x60control_dependencies\x60\x60 sequence, read every time an operation is",
    "created."]

/-- The lines that open the class called `containerName`, with its docstring. -/
def containerOpening : List Line :=
  { text := "class " ++ containerName ++ [':'] } :: deeper
    (match containerDocstring with
      | [] => []
      | first :: rest =>
        ((tripleQuote ++ first) :: rest ++ [tripleQuote]).map fun t => { text := t })

/-- The lines behind the class called `containerName`. -/
def containerClosing : List Line :=
  [{ text := [] }, { text := [] },
    { text := "__all__ = [" ++ Binding.between containerName ++ [']'] }]

/-- The lines of a module with the given methods, between the `containerOpening` and the
`containerClosing`. -/
def moduleLines (b : Binding) (blocks : List (List Line)) : List Line :=
  b.importLines.map (fun t => { text := t }) ++ containerOpening ++ deeper blocks.flatten ++
    containerClosing

/-- The text of `moduleLines` with the given methods, every line ended by a line feed. -/
def moduleCode (b : Binding) (blocks : List (List Line)) : Text :=
  Text.unlines ((moduleLines b blocks).map (Line.render 0)) ++ ['\n']

/-- The warnings of a run and the module it generates, with the operations in the order of
`sortedByName`. -/
def generateModule (table : TypeTable) (b : Binding) (ops : List Operation)
    (docs : Text → Option Documentation) : List Warning × Except EmitFault GeneratedModule :=
  let p := progress table b docs (sortedByName ops)
  (p.warnings,
    match p.fault? with
    | some fault => .error fault
    | none => .ok ⟨moduleCode b p.blocks, p.report⟩)

/-- The module of `generateModule` for a binding given by its registered name. -/
def generateModuleNamed (table : TypeTable) (binding : Text) (ops : List Operation)
    (docs : Text → Option Documentation) : List Warning × Except EmitFault GeneratedModule :=
  match Binding.ofName? binding with
  | some b => generateModule table b ops docs
  | none => ([], .error (.unknownBinding binding))

end TypedOps
