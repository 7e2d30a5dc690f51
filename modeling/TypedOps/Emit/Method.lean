import TypedOps.Emit.Binding
import TypedOps.Emit.Docstring

/-!
# `TypedOps.Emit.Method`: the method for an operation

`Operation.methodBlock` is the whole text of a method as a block of lines. It
depends only on the type table, the binding, the operation and its documentation.
An operation with several outputs gets a named tuple in front of its method.

The parts come in the order in which a fault in one of them ends the others:
signature, docstring, attribute setters, finishing.
-/

set_option autoImplicit false

namespace TypedOps

open Naming (parameter)

/-- The class that holds the generated methods. -/
def containerName : Text := "GraphOps"

/-- The annotation of an input or output, which is a list of handles or one handle. -/
def Argument.typeHint (a : Argument) : Text := if a.isList then "list[Output]" else "Output"

namespace Operation

/-- The annotation of an attribute's parameter by `TypeTag.typeHint?`, or the fault that its type
has none. -/
def attributeHint (table : TypeTable) (op : Operation) (a : Attribute) :
    Except EmitFault Text :=
  match TypeTag.typeHint? table a.tag with
  | some hint => .ok hint
  | none => .error (.unmapped op.name a.name a.tag)

/-- The name of the tuple that several outputs are returned in. -/
def outputsClass (op : Operation) : Text := op.name ++ "Outputs"

/-- The parameters of the method: the graph, the inputs, the required and the optional attributes
with their `attributeHint`, and the name the operation is to have. -/
def signatureParams (table : TypeTable) (op : Operation) : Except EmitFault (List Text) := do
  let required ← op.classification.required.mapM fun a => do
    return parameter a.name ++ ": " ++ (← op.attributeHint table a)
  let optional ← op.classification.optional.mapM fun a => do
    return parameter a.name ++ ": " ++ (← op.attributeHint table a) ++ " | None = None"
  return ["self".toList] ++ op.inputs.map (fun a => parameter a.name ++ ": " ++ a.typeHint) ++
    required ++ optional ++ ["name: str | None = None".toList]

/-- The annotation of the method's result: the operation, one output, or the tuple of
`outputsClass`. -/
def returnHint (op : Operation) : Text :=
  match op.outputs with
  | [] => "Operation"
  | [a] => a.typeHint
  | _ => containerName ++ '.' :: op.outputsClass

/-- The named tuple for several outputs, called `outputsClass`. -/
def outputsClassBlock (op : Operation) : List Line :=
  match op.outputs with
  | [] | [_] => []
  | outputs =>
    [{ text := "class " ++ op.outputsClass ++ "(NamedTuple):" }] ++
      deeper ({ text := "\"\"\"Outputs of :meth:\x60" ++ Naming.method op.name ++ "\x60.\"\"\"" } ::
        outputs.map fun a => { text := parameter a.name ++ ": " ++ a.typeHint })

/-- The statements that bind the variable of an output, called as `parameter` says. The running
index counts the handles of the outputs before it. -/
def bindOutput (a : Argument) : List Line :=
  if a.isList then
    [{ text := "_n = op.get_output_list_length(" ++ Binding.between a.name ++ [')'] },
      { text := parameter a.name ++ " = [Output(op, _idx + i) for i in range(_n)]" },
      { text := "_idx += _n" }]
  else [{ text := parameter a.name ++ " = Output(op, _idx)" }, { text := "_idx += 1" }]

/-- The statements that bind the outputs, by `bindOutput`, behind the one that starts the running
index. -/
def outputsBlock (op : Operation) : List Line :=
  if op.outputs.isEmpty then [] else { text := "_idx = 0" } :: op.outputs.flatMap bindOutput

/-- The statement that returns the result, as an `outputsClass` if there are several outputs. -/
def returnLine (op : Operation) : Line :=
  match op.outputs with
  | [] => { text := "return op" }
  | [a] => { text := "return " ++ parameter a.name }
  | outputs =>
    { text := "return self." ++ op.outputsClass ++ '(' ::
        Text.join ", " (outputs.map fun a => parameter a.name) ++ [')'] }

/-- The statements that set the attributes, by `setAttribute`; an optional one is set only if the
caller gives a value. -/
def settersBlock (table : TypeTable) (b : Binding) (op : Operation) :
    Except EmitFault (List Line) := do
  let required ← op.classification.required.mapM fun a =>
    b.setAttribute table op.name a (parameter a.name)
  let optional ← op.classification.optional.mapM fun a => do
    let setter ← b.setAttribute table op.name a (parameter a.name)
    return { text := "if " ++ parameter a.name ++ " is not None:" } :: deeper setter
  return required.flatten ++ optional.flatten

/-- The line that opens the method called `Naming.method`. -/
def defLine (op : Operation) (params : List Text) : Line :=
  { text := "def " ++ Naming.method op.name ++ '(' :: Text.join ", " params ++ ") -> " ++
      op.returnHint ++ [':'] }

/-- The method for an operation, with the tuple of its outputs in front, the `outputsClassBlock`. -/
def methodBlock (table : TypeTable) (b : Binding) (op : Operation) (doc : Documentation) :
    Except EmitFault (List Line) := do
  let params ← op.signatureParams table
  let docLines ← (docstringLines op doc).mapError .badDefault
  let setters ← op.settersBlock table b
  let finish ← b.finishOperation op.name
  return op.outputsClassBlock ++ op.defLine params ::
    deeper (docstringBlock docLines ++ Binding.newDescription op.name ++
      op.inputs.flatMap (fun a => Binding.addInput (parameter a.name) a.isList) ++
      Binding.addControlInputs ++ setters ++ finish ++ op.outputsBlock ++ [op.returnLine])

/-- The greatest depth at which a block was entered, also where a fault ended the
method: a docstring stands inside the method, and setters come after the loop over
control inputs. -/
def reachedDepth (op : Operation) : Except EmitFault (List Line) → Nat
  | .ok block => block.foldl (fun depth line => max depth line.depth) 0
  | .error (.unmapped ..) => if op.outputsClassBlock.isEmpty then 0 else 1
  | .error (.badDefault _) => 1
  | .error _ => 2

/-- Write the `methodBlock` at the level of a writer. A block entered from below level zero cannot
be left again once it stands at level zero. Where the method cannot be written, nothing is. -/
def emit (table : TypeTable) (b : Binding) (op : Operation) (doc : Documentation) (w : Writer) :
    Except EmitFault Writer :=
  let block := op.methodBlock table b doc
  if w.level < 0 ∧ -w.level ≤ op.reachedDepth block then .error .belowZero
  else block.map w.block

end Operation

end TypedOps
