import TypedOps.Emit.Line
import TypedOps.Operation.Basic
import TypedOps.Operation.TypeTag
import TypedOps.Text.Quoted

/-!
# `TypedOps.Emit.Binding`: how generated code talks to the runtime

A binding decides which module generated code imports from, how an attribute is
set and how an operation is finished. Everything else is shared. Two bindings are
registered by name; the `base` one has the shared part only, and no way to set an
attribute or to finish an operation.
-/

set_option autoImplicit false

namespace TypedOps

/-- Why code cannot be generated. -/
inductive EmitFault where
  /-- An attribute's type has no annotation. -/
  | unmapped (operation name tag : Text)
  /-- The binding lacks a step. -/
  | unimplemented
  /-- A default cannot be shown. -/
  | badDefault (fault : Value.Fault)
  /-- A block went back below level zero. -/
  | belowZero
  /-- No binding is registered under this name. -/
  | unknownBinding (name : Text)
deriving DecidableEq, Repr

/-- The message of an `EmitFault` that names what it is about. -/
def EmitFault.message? : EmitFault → Option Text
  | .unmapped operation name tag =>
    some ("Unexpected type " ++ Text.quoted tag ++ " for attribute " ++ Text.quoted name ++
      " of op " ++ operation)
  | .unimplemented => none
  | .badDefault fault => fault.message?
  | .belowZero => some "Cannot dedent below level 0"
  | .unknownBinding name => some ("Unknown binding convention: " ++ name)

/-- A convention for talking to the runtime. The `base` has the steps that need no convention, and
lacks the others. -/
inductive Binding where
  | base
  | graph
  | typed
deriving DecidableEq, Repr

namespace Binding

/-- The bindings that can be asked for by name. The `base` is not among them. -/
def registered : List (Text × Binding) := [("graph", .graph), ("typed", .typed)]

/-- The binding `registered` under a name. -/
def ofName? (name : Text) : Option Binding := registered.lookup name

/-- The module that generated code imports from, for each `Binding`. -/
def runtimeModule : Binding → Text
  | .base => []
  | .graph => "tfbinding"
  | .typed => "tfbinding.typed"

/-- The names that generated code imports from the runtime. -/
def runtimeNames : List Text :=
  ["DataType", "OpCreateError", "Operation", "OperationDescription", "Output", "Shape", "Status",
    "Tensor"]

/-- The lines of the import section, with the `runtimeNames` one a line. -/
def importLines (b : Binding) : List Text :=
  ["from __future__ import annotations".toList, [], "from typing import NamedTuple".toList, [],
    "from " ++ b.runtimeModule ++ " import ("] ++
    runtimeNames.map (fun name => indentUnit ++ name ++ [',']) ++ [[')']]

/-- A text between double quotes, with nothing in it escaped. -/
def between (t : Text) : Text := '"' :: t ++ ['"']

/-- The statement that begins the description of an operation, whose name stands `between` quotes in
it. -/
def newDescription (operation : Text) : List Line :=
  [{ text := "desc = OperationDescription(self, " ++ between operation ++ ", self.make_name(" ++
      between operation ++ ", name))" }]

/-- The statement that adds an input or a list of inputs. -/
def addInput (expr : Text) (isList : Bool) : List Line :=
  [{ text := (if isList then "desc.add_inputs(" else "desc.add_input(") ++ expr ++ [')'] }]

/-- The loop that adds the control inputs pending when an operation is made. -/
def addControlInputs : List Line :=
  [{ text := "for control in self.control_dependencies:" },
    { depth := 1, text := "desc.add_control_input(control)" }]

/-- The setters of the typed binding, by annotation. -/
def typedSetters : List (Text × Text) :=
  [("int", "int"), ("float", "float"), ("bool", "bool"), ("DataType", "type"), ("Shape", "shape"),
    ("Tensor", "tensor"), ("str", "string")]

/-- The call that sets an attribute whose element has the given annotation. The typed binding looks
for its method in `typedSetters`. -/
def setterCall (b : Binding) (operation : Text) (a : Attribute) (element : Text) (isList : Bool)
    (expr : Text) : Except EmitFault Text :=
  match b with
  | .base => .error .unimplemented
  | .graph => .ok ("desc.set_attr(" ++ between a.name ++ ", " ++ expr ++ [')'])
  | .typed =>
    match typedSetters.lookup element with
    | none => .error (.unmapped operation a.name a.tag)
    | some setter =>
      let ending : Text := if isList then "_list(" else "("
      .ok ("desc.set_attr_" ++ setter ++ ending ++ between a.name ++ ", " ++ expr ++ [')'])

/-- A caller's value as it is handed to the runtime: value-like scalars go through their
`constructor?`. -/
def coerced (tag expr : Text) : Text :=
  match TypeTag.constructor? tag with
  | some constructor => constructor ++ '(' :: expr ++ [')']
  | none => expr

/-- The statement that sets an attribute, with the value as `coerced` hands it over. -/
def setAttribute (table : TypeTable) (b : Binding) (operation : Text) (a : Attribute)
    (expr : Text) : Except EmitFault (List Line) :=
  match TypeTag.mapped table a.tag with
  | (none, _) => .error (.unmapped operation a.name a.tag)
  | (some element, isList) =>
    (b.setterCall operation a element isList (coerced a.tag expr)).map fun call =>
      [{ text := call }]

/-- The statement that refuses an operation the runtime would not create. -/
def raiseCreateError (operation : Text) : Line :=
  { text := "raise OpCreateError(" ++ between operation ++ ", status.message)" }

/-- The statements that finish an operation, in the way of the `Binding`. -/
def finishOperation (b : Binding) (operation : Text) : Except EmitFault (List Line) :=
  match b with
  | .base => .error .unimplemented
  | .graph =>
    .ok ([{ text := "status = Status()" }, { text := "op = desc.finish_operation(status)" },
        { text := "if not status.ok:" }] ++ deeper [raiseCreateError operation])
  | .typed =>
    .ok ([{ text := "with Status() as status:" }] ++
      deeper ([{ text := "op = desc.finish_operation(status)" }, { text := "if status.error:" }] ++
        deeper [raiseCreateError operation]))

end Binding

end TypedOps
