import TypedOps.Proofs.Emit.Handles

/-!
# `TypedOps.Proofs.Emit.Outputs`: generated code binds the right handles

`Operation.outputsProgram` is the end of a method as statements: those that bind a variable for each
output, and the one that returns. Its lines are the texts of these statements; where the names are
words they are read back as these and run by the keys of their names (`executeLines_outputsLines`).

They run in `Operation.entry`, the scope that the rest of the method leaves. There the operation and
the graph are called `op` and `self`, parameters stand for what the caller gave, and only where no
parameter is called so do `Output` and `range` stand for the types.

* `Operation.execute_outputsProgram`: with `Operation.Bindable` outputs, running the statements
  binds each variable to its handles and returns them (`OutputsBound`).
* `Operation.bindable_of_execute`: if they can be run at all, whatever the lengths of the
  outputs, the outputs are `Bindable`.
* `Operation.outputsLines_bind_iff`: so this says exactly when the lines do what they are for.
-/

set_option autoImplicit false

namespace TypedOps

open Naming (parameter)
open Script
open Text

/-! ### The end of a method -/

namespace Operation

/-- The statement that returns the result, where the variables of outputs are called by `v` and the
named tuple of several is called `tuple`. -/
def returnStatement (op : Operation) (v : Argument → Text) (tuple : Text) : Statement :=
  match op.outputs with
  | [] => .give (.operand (.name "op"))
  | [a] => .give (.operand (.name (v a)))
  | outputs => .give (.call ⟨some "self", tuple, outputs.map fun a => .name (v a)⟩)

/-- The statements at the end of a method: the `bindStatements` of each output behind a running
index, and the `returnStatement`. -/
def outputsProgram (op : Operation) (v : Argument → Text) (tuple : Text) : List Statement :=
  (if op.outputs.isEmpty then []
    else .assign "_idx" (.operand (.number 0)) ::
      op.outputs.flatMap fun a => bindStatements (v a) a) ++
    [op.returnStatement v tuple]

/-- The statements as they are written, with variables called as parameters are. Lines are texts of
these, and runs look names up by `outputsProgram` with other names. -/
def writtenProgram (op : Operation) : List Statement :=
  op.outputsProgram (fun a => parameter a.name) op.outputsClass

/-- Without outputs, all there is in the `outputsProgram` is the return. -/
theorem outputsProgram_of_eq_nil {op : Operation} (h : op.outputs = []) (v : Argument → Text)
    (tuple : Text) : op.outputsProgram v tuple = [op.returnStatement v tuple] := by
  rw [outputsProgram, h]
  rfl

/-- With outputs, the running index of the `outputsProgram` starts at zero in front of the
statements that bind them. -/
theorem outputsProgram_of_ne_nil {op : Operation} (h : op.outputs ≠ []) (v : Argument → Text)
    (tuple : Text) : op.outputsProgram v tuple =
      .assign "_idx" (.operand (.number 0)) ::
        (op.outputs.flatMap (fun a => bindStatements (v a) a) ++
          [op.returnStatement v tuple]) := by
  rw [outputsProgram, if_neg (by simpa using h), List.cons_append]

/-- The texts of the lines at the end of a method, which are the `outputsBlock` and the
`returnLine`. -/
def outputsLines (op : Operation) : List Text :=
  (op.outputsBlock ++ [op.returnLine]).map (·.text)

/-- The last line of a method is the text of the `returnStatement`. -/
theorem returnLine_eq (op : Operation) : op.returnLine =
    { text := (op.returnStatement (fun a => parameter a.name) op.outputsClass).written } := by
  rcases houts : op.outputs with _ | ⟨a, _ | ⟨b, outs⟩⟩
  · simp only [returnLine, returnStatement, houts]
    rfl
  · simp only [returnLine, returnStatement, houts]
    rfl
  · have hoperands : ((a :: b :: outs).map fun a => Operand.name (parameter a.name)).map
        Operand.written = (a :: b :: outs).map fun a => parameter a.name := by
      rw [List.map_map]
      rfl
    simp only [returnLine, returnStatement, houts, Statement.written_give, Expr.written,
      Call.written, Call.front, Call.callee, hoperands]
    simp

/-- The lines at the end of a method are the texts of its `writtenProgram`, statement by statement.
-/
theorem outputsLines_eq (op : Operation) :
    op.outputsLines = op.writtenProgram.map Statement.written := by
  have hfirst : Statement.written (.assign "_idx" (.operand (.number 0))) = "_idx = 0" := by decide
  have hbind : (op.outputs.flatMap bindOutput).map (·.text) =
      (op.outputs.flatMap fun a => bindStatements (parameter a.name) a).map
        Statement.written := by
    rw [List.map_flatMap, List.map_flatMap]
    refine List.flatMap_congr fun a _ => ?_
    rw [bindOutput_eq, List.map_map]
    rfl
  rw [outputsLines, outputsBlock, writtenProgram, outputsProgram, List.map_append, List.map_append,
    returnLine_eq, List.map_singleton, List.map_singleton]
  -- Without outputs there is no running index and the two sides are the return alone.
  split
  · rfl
  · rw [List.map_cons, List.map_cons, hfirst, hbind]

end Operation

/-! ### Names in the statements -/

/-- The words that the statements use besides the names of the operation: what they look up, the
variable inside a list, and the method that they call. -/
def fixedWords : List Text :=
  ["_idx", "_n", "i", "op", "self", "Output", "range", "get_output_list_length"]

/-- The `fixedWords` are names, whatever the operation is. -/
theorem isName_of_mem_fixedWords : ∀ x ∈ fixedWords, IsName x := by decide +kernel

/-- The `fixedWords` are their own keys: all of them are ASCII, which no normal form changes, and
none begins with two low lines, so a class does not mangle them. -/
theorem key_of_mem_fixedWords (N : NormalForm) :
    ∀ x ∈ fixedWords, N.key containerName x = x := by
  have hpublic : ∀ x ∈ fixedWords, (∀ c ∈ x, c.toNat < 128) ∧ ¬("__" : Text) <+: x := by decide
  exact fun x hx => N.key_eq_self _ (hpublic x hx).1 (hpublic x hx).2

/-- A word becomes a name by `parameter`, since a keyword gets a low line. -/
theorem isName_parameter {name : Text} (h : IsWord name) : IsName (parameter name) := by
  have hfree := Naming.parameter_not_mem_reserved name
  have hword : IsWord (parameter name) := by
    refine ⟨Naming.isIdentifier_parameter h.1, ?_⟩
    have hreadable : ∀ e ∈ Naming.readableNames,
        (e.2.head?.any fun c => !c.isDigit) = true := by decide
    -- A name is replaced by a readable one, gets a low line behind it, or stays. Its first code
    -- point is no digit in any of these cases.
    rcases Naming.parameter_cases name with (hmem | ⟨-, heq⟩) | ⟨heq, -⟩
    · exact hreadable _ hmem
    · have hhead := h.2
      rw [heq]
      cases name with
      | nil => cases hhead
      | cons c rest => exact hhead
    · rw [heq]
      exact h.2
  exact ⟨hword, fun hkeyword => hfree (List.mem_append_left _ hkeyword)⟩

/-- The `outputsClass` of an operation is a name if it is a word, which no keyword ends like. -/
theorem isName_outputsClass {op : Operation} (h : IsWord op.outputsClass) :
    IsName op.outputsClass := by
  have hkeywords : ∀ word ∈ Naming.keywords, ¬("Outputs" : Text) <:+ word := by decide
  exact ⟨h, fun hkeyword => hkeywords _ hkeyword (List.suffix_append ..)⟩

namespace Operation

/-- Where the names are words, the `writtenProgram` has proper names. The name of the named tuple
only matters where there is one. -/
theorem wellNamed_writtenProgram {op : Operation}
    (htuple : 2 ≤ op.outputs.length → IsWord op.outputsClass)
    (houtputs : ∀ a ∈ op.outputs, IsWord a.name) : ∀ st ∈ op.writtenProgram, st.WellNamed := by
  have hfixed := isName_of_mem_fixedWords
  simp only [fixedWords, List.forall_mem_cons] at hfixed
  obtain ⟨hindex, hnumber, hcounter, hop, hself, houtput, hrange, hlength, -⟩ := hfixed
  have hvariable : ∀ a ∈ op.outputs, IsName (parameter a.name) := fun a ha =>
    isName_parameter (houtputs a ha)
  have hhandle : ∀ index : Operand, index.WellNamed → (handleCall index).WellNamed := by
    intro index hindex
    refine ⟨by simp [handleCall], houtput, ?_⟩
    simp only [handleCall, List.forall_mem_cons]
    exact ⟨hop, hindex, by simp⟩
  have hlength : ∀ a ∈ op.outputs,
      Call.WellNamed ⟨some "op", "get_output_list_length", [.text a.name]⟩ := fun a ha =>
    ⟨by simpa using hop, hlength, List.forall_mem_singleton.mpr (houtputs a ha).1⟩
  have hrange : Call.WellNamed ⟨none, "range", [.name "_n"]⟩ :=
    ⟨by simp, hrange, List.forall_mem_singleton.mpr hnumber⟩
  have hbind : ∀ a ∈ op.outputs, ∀ st ∈ bindStatements (parameter a.name) a, st.WellNamed := by
    intro a ha
    rw [bindStatements]
    split
    · simp only [List.forall_mem_cons]
      exact ⟨⟨hnumber, hlength a ha⟩,
        ⟨hvariable a ha, hhandle _ ⟨hindex, hcounter⟩, hcounter, hrange⟩,
        ⟨hindex, hnumber⟩, by simp⟩
    · simp only [List.forall_mem_cons]
      exact ⟨⟨hvariable a ha, hhandle _ hindex⟩, ⟨hindex, trivial⟩, by simp⟩
  -- With one output or none, the tuple is not mentioned, so its name need be no word.
  have hreturn :
      (op.returnStatement (fun a => parameter a.name) op.outputsClass).WellNamed := by
    rcases houts : op.outputs with _ | ⟨a, _ | ⟨b, outs⟩⟩
    · simp only [returnStatement, houts]
      exact hop
    · simp only [returnStatement, houts]
      exact hvariable a (by simp [houts])
    · simp only [returnStatement, houts]
      refine ⟨by simpa using hself, isName_outputsClass (htuple (by simp [houts])), ?_⟩
      rw [← houts]
      intro o ho
      obtain ⟨a, ha, rfl⟩ := List.mem_map.mp ho
      exact hvariable a ha
  rw [writtenProgram, outputsProgram, List.forall_mem_append]
  refine ⟨?_, by simpa using hreturn⟩
  split
  · simp
  · rw [List.forall_mem_cons]
    refine ⟨⟨by decide, trivial⟩, fun st hst => ?_⟩
    obtain ⟨a, ha, hst⟩ := List.mem_flatMap.mp hst
    exact hbind a ha st hst

end Operation

/-! ### Looking names up -/

/-- What the variable of an output is looked up by in a method: its `NormalForm.key`, the normal
form mangled as names in a class are. -/
def Argument.key (N : NormalForm) (a : Argument) : Text := N.key containerName (parameter a.name)

namespace Operation

section
variable (N : NormalForm) (op : Operation)

/-- What the named tuple of the outputs is looked up by, as an attribute of the graph: the key of
`outputsClass`. -/
def tupleKey : Text := N.key containerName op.outputsClass

/-- The statements of the `writtenProgram` by the keys of their names. The names that all methods
use are their own keys. -/
theorem map_keyed_writtenProgram : op.writtenProgram.map (·.keyed (N.key containerName)) =
    op.outputsProgram (·.key N) (op.tupleKey N) := by
  have hfixed := key_of_mem_fixedWords N
  simp only [fixedWords, List.forall_mem_cons] at hfixed
  obtain ⟨hindex, hnumber, hcounter, hop, hself, houtput, hrange, hlength, -⟩ := hfixed
  have hbind : ∀ a : Argument,
      (bindStatements (parameter a.name) a).map (·.keyed (N.key containerName)) =
        bindStatements (a.key N) a := by
    intro a
    rw [bindStatements, bindStatements]
    split <;> simp only [List.map_cons, List.map_nil, Statement.keyed, Expr.keyed, Call.keyed,
      Operand.keyed, handleCall, Option.map_some, Option.map_none, hindex, hnumber, hcounter, hop,
      houtput, hrange, hlength, Argument.key]
  have hreturn : (op.returnStatement (fun a => parameter a.name) op.outputsClass).keyed
      (N.key containerName) = op.returnStatement (·.key N) (op.tupleKey N) := by
    rcases houts : op.outputs with _ | ⟨a, _ | ⟨b, outs⟩⟩ <;>
      simp only [returnStatement, houts, Statement.keyed, Expr.keyed, Call.keyed, Operand.keyed,
        Option.map_some, hop, hself, Argument.key, tupleKey, List.map_map, Function.comp_def]
  rw [writtenProgram, outputsProgram, outputsProgram, List.map_append, List.map_singleton, hreturn]
  split
  · rfl
  · rw [List.map_cons, List.map_flatMap, Statement.keyed, hindex]
    simp only [hbind, Expr.keyed, Operand.keyed]

variable {op}

/-- Where the names are words, `executeLines` on the lines of the outputs is `execute` on the
statements by their keys. -/
theorem executeLines_outputsLines (htuple : 2 ≤ op.outputs.length → IsWord op.outputsClass)
    (houtputs : ∀ a ∈ op.outputs, IsWord a.name) (r : Runtime) (s : Scope) :
    executeLines (N.key containerName) r s op.outputsLines =
      execute r s (op.outputsProgram (·.key N) (op.tupleKey N)) := by
  rw [outputsLines_eq, executeLines_map_written (wellNamed_writtenProgram htuple houtputs),
    map_keyed_writtenProgram]

end

/-! ### What surrounds the end of a method -/

/-- What the parameters of the method are looked up by: the keys of the `givenNames` as parameters,
and that of the parameter for the name of the operation. -/
def parameterKeys (N : NormalForm) (op : Operation) : List Text :=
  (op.givenNames.map parameter ++ ["name".toList]).map (N.key containerName)

/-- The scope that the rest of the method leaves to its end. A parameter, told by `parameterKeys`,
hides what is called by its name outside the method. -/
def entry (N : NormalForm) (op : Operation) : Scope := fun x =>
  if x = "op" then some .operation
  else if x = "self" then some .graph
  else if (op.parameterKeys N).contains x then some .given
  else if x = "Output" then some .outputType
  else if x = "range" then some .rangeType
  else none

/-- The fields of the named tuple of several outputs, with their annotations, as `outputsClassBlock`
declares them. -/
def outputFields (op : Operation) : List (Text × Text) :=
  op.outputs.map fun a => (parameter a.name, a.typeHint)

/-- The named tuple of several outputs is declared with the `outputFields`, one line for each. -/
theorem outputsClassBlock_eq {op : Operation} (h : 2 ≤ op.outputs.length) : ∃ docstring,
    op.outputsClassBlock = { text := "class " ++ op.outputsClass ++ "(NamedTuple):" } ::
      deeper (docstring :: op.outputFields.map fun f => { text := f.1 ++ ": " ++ f.2 }) := by
  rw [outputsClassBlock]
  split
  · next hout => simp [hout] at h
  · next hout => simp [hout] at h
  · exact ⟨_, by rw [outputFields, List.map_map]; rfl⟩

/-- The names of the `outputFields` are the normal forms of those declared. A class that is made
from them is not mangled again. -/
def fieldNames (N : NormalForm) (op : Operation) : List Text :=
  op.outputFields.map fun f => N.of f.1

/-- What an operation with outputs of the given lengths knows, and its graph. The graph offers the
named tuple if the declaration of its `fieldNames` is accepted by `tupleFields?`. -/
def runtime (N : NormalForm) (op : Operation) (lengths : Text → Nat) : Runtime where
  listLength := lengths
  fields? type :=
    if type = op.tupleKey N ∧ 2 ≤ op.outputs.length then tupleFields? (op.fieldNames N) else none

/-- The outputs of an operation can be bound and returned: no two variables have the same
`Argument.key`, none is the `fixedName`, no parameter hides a type that is used, and a named tuple
takes the variables as its fields (`IsField`). -/
structure Bindable (N : NormalForm) (op : Operation) : Prop where
  distinct : (op.outputs.map (·.key N)).Nodup
  assigned : ∀ a ∈ op.outputs, a.key N ≠ fixedName
  outputType : op.outputs ≠ [] → "Output".toList ∉ op.parameterKeys N
  rangeType : ∀ a ∈ op.outputs, a.isList = true → "range".toList ∉ op.parameterKeys N
  fields : 2 ≤ op.outputs.length → ∀ x ∈ op.fieldNames N, IsField x

section
variable {N : NormalForm} {op : Operation}

/-- A name other than `op` and `self` stands for what the caller gave just where a parameter hides
it. -/
theorem entry_eq_given_iff {x : Text} (hx : x ≠ "op" ∧ x ≠ "self") :
    op.entry N x = some .given ↔ x ∈ op.parameterKeys N := by
  rw [entry, if_neg hx.1, if_neg hx.2]
  split
  · next h => exact iff_of_true rfl (List.contains_iff_mem.mp h)
  · next h =>
    refine iff_of_false (fun hgiven => ?_) fun hmem => h (List.contains_iff_mem.mpr hmem)
    split at hgiven
    · cases hgiven
    · split at hgiven <;> cases hgiven

/-- Where the outputs are `Bindable`, the scope at the end of the method provides all that binding
them needs. -/
theorem Bindable.provides (h : op.Bindable N) : (op.entry N).Provides op.outputs where
  operation := rfl
  graph := rfl
  outputType hne := by
    rw [entry, if_neg (by decide), if_neg (by decide),
      if_neg fun hmem => h.outputType hne (List.contains_iff_mem.mp hmem)]
    rfl
  rangeType a ha hlist := by
    rw [entry, if_neg (by decide), if_neg (by decide),
      if_neg fun hmem => h.rangeType a ha hlist (List.contains_iff_mem.mp hmem)]
    rfl

/-- The `fieldNames` are distinct where the keys of the variables are, since a key is made of the
normal form. -/
theorem Bindable.nodup_fieldNames (h : op.Bindable N) : (op.fieldNames N).Nodup := by
  have hkeys : op.outputs.map (·.key N) = (op.fieldNames N).map (mangled containerName) := by
    rw [fieldNames, outputFields, List.map_map, List.map_map]
    rfl
  exact List.Nodup.of_map _ (hkeys ▸ h.distinct)

end

/-! ### What is returned -/

/-- What the method returns when the variables stand for some values: the operation, the value, or
the named tuple of all with the `fieldNames`. -/
def gathered (N : NormalForm) (op : Operation) : List Object → Object
  | [] => .operation
  | [value] => value
  | values => .record (op.tupleKey N) ((op.fieldNames N).zip values)

section
variable {N : NormalForm} {op : Operation} {lengths : Text → Nat}

/-- Two or more values are returned as a named tuple, with the `fieldNames` in order. -/
theorem gathered_eq_record (N : NormalForm) (op : Operation) {values : List Object}
    (h : 2 ≤ values.length) :
    op.gathered N values = .record (op.tupleKey N) ((op.fieldNames N).zip values) := by
  match values, h with
  | _ :: _ :: _, _ => rfl

/-- The last statement returns what the variables stand for, if the outputs are `Bindable`. -/
theorem execute_returnStatement {s : Scope} {values : List Object} (hbindable : op.Bindable N)
    (hs : s.Provides []) (h : op.outputs.map (fun a => s (a.key N)) = values.map some) :
    execute (op.runtime N lengths) s [op.returnStatement (·.key N) (op.tupleKey N)] =
      some (s, op.gathered N values) := by
  -- The operation is returned if there is no output, the output if there is one, and otherwise the
  -- tuple.
  rcases houts : op.outputs with _ | ⟨a, _ | ⟨b, outs⟩⟩
  · rw [houts, List.map_nil, eq_comm, List.map_eq_nil_iff] at h
    subst h
    have hvalue : Expr.eval (op.runtime N lengths) s (.operand (.name "op")) = some .operation :=
      hs.operation
    simp only [returnStatement, houts]
    exact execute_give hvalue []
  · rw [houts, List.map_singleton, eq_comm, List.map_eq_singleton_iff] at h
    obtain ⟨v, rfl, hv⟩ := h
    have hvalue : Expr.eval (op.runtime N lengths) s (.operand (.name (a.key N))) = some v :=
      hv.symm
    simp only [returnStatement, houts]
    exact execute_give hvalue []
  · have hlength : values.length = op.outputs.length := by
      simpa using (congrArg List.length h).symm
    have hseveral : 2 ≤ op.outputs.length := by simp [houts]
    have hoperands : ((a :: b :: outs).map fun a => Operand.name (a.key N)).map
        (·.eval s) = values.map some := by
      rw [← h, houts, List.map_map]
      rfl
    -- The graph offers the tuple, since there are several outputs whose keys can be its fields.
    have hfields : (op.runtime N lengths).fields? (op.tupleKey N) = some (op.fieldNames N) := by
      rw [runtime]
      simp only [hseveral, and_self, if_true]
      exact tupleFields?_eq_some (hbindable.fields hseveral) hbindable.nodup_fieldNames
    have hvalue : Expr.eval (op.runtime N lengths) s (.call ⟨some "self", op.tupleKey N,
        (a :: b :: outs).map fun a => Operand.name (a.key N)⟩) =
          some (.record (op.tupleKey N) ((op.fieldNames N).zip values)) := by
      have hsame : (op.fieldNames N).length = values.length := by
        rw [hlength, fieldNames, outputFields, List.length_map, List.length_map]
      rw [Expr.eval, Call.eval_method hs.graph hoperands, Object.callMethod?, hfields,
        Option.bind_eq_bind, Option.bind_some, if_pos hsame]
    rw [gathered_eq_record N op (by simp [hlength, houts])]
    simp only [returnStatement, houts]
    exact execute_give hvalue []

/-- If several outputs could be returned by `execute`, the fields of their named tuple are accepted
as fields. -/
theorem isField_of_execute_returnStatement {s : Scope} {out : Scope × Object}
    (hself : s "self" = some .graph) (hseveral : 2 ≤ op.outputs.length)
    (h : execute (op.runtime N lengths) s [op.returnStatement (·.key N) (op.tupleKey N)] =
      some out) : ∀ x ∈ op.fieldNames N, IsField x := by
  obtain ⟨a, b, outs, houts⟩ : ∃ a b outs, op.outputs = a :: b :: outs := by
    match hcase : op.outputs, hseveral with
    | a :: b :: outs, _ => exact ⟨a, b, outs, rfl⟩
  simp only [returnStatement, houts] at h
  obtain ⟨value, hvalue, -⟩ := exists_of_execute_give h
  simp only [Expr.eval, Call.eval, hself, Option.bind_eq_bind, Option.bind_some] at hvalue
  obtain ⟨values, -, hvalue⟩ := Option.bind_eq_some_iff.mp hvalue
  obtain ⟨fields, hfields, -⟩ := Option.bind_eq_some_iff.mp hvalue
  simp only [runtime, hseveral, and_self, if_true, tupleFields?] at hfields
  split at hfields
  · assumption
  · cases hfields

/-- A variable of an output fits the output's annotation (`Argument.typeHint`): one handle, or a
list of them. -/
inductive FitsOutput : Object → Text → Prop where
  | handle (index : Nat) : FitsOutput (.handle index) "Output"
  | handles (indices : List Nat) : FitsOutput (.list (indices.map .handle)) "list[Output]"

/-- What a method returns fits its annotation. The fields of a named tuple are those declared, and
each has `FitsOutput` with its own annotation. -/
inductive Fits (N : NormalForm) (op : Operation) : Object → Text → Prop where
  | operation : Fits N op .operation "Operation"
  | output {v : Object} {hint : Text} (h : FitsOutput v hint) : Fits N op v hint
  | record {values : List Object}
    (h : List.Forall₂ FitsOutput values (op.outputFields.map Prod.snd)) :
    Fits N op (.record (op.tupleKey N) ((op.fieldNames N).zip values))
      (containerName ++ '.' :: op.outputsClass)

/-- What the variable of an output is to stand for fits the `typeHint` of the output. -/
theorem fitsOutput_bound (lengths : Text → Nat) (k : Nat) (a : Argument) :
    FitsOutput (a.bound lengths k) a.typeHint := by
  rw [Argument.bound, Argument.typeHint]
  split
  · -- The constructor wants the handles made from their indices.
    have hlist := FitsOutput.handles ((List.range (lengths a.name)).map (k + ·))
    rw [List.map_map] at hlist
    exact hlist
  · exact .handle k

/-- What the variables of some outputs are to stand for fits the `typeHint` of each, one by one. -/
theorem forall₂_fitsOutput (lengths : Text → Nat) (k : Nat) (outs : List Argument) :
    List.Forall₂ FitsOutput (boundValues lengths k outs) (outs.map Argument.typeHint) := by
  induction outs generalizing k with
  | nil => exact .nil
  | cons a outs ih => exact .cons (fitsOutput_bound lengths k a) (ih _)

/-- What is `gathered` for the right values fits the annotation of the method's result. -/
theorem fits_gathered (N : NormalForm) (op : Operation) (lengths : Text → Nat) :
    op.Fits N (op.gathered N (boundValues lengths 0 op.outputs)) op.returnHint := by
  -- The annotation is one of three, by the number of outputs, as the value is.
  have hfits := forall₂_fitsOutput lengths 0 op.outputs
  rcases houts : op.outputs with _ | ⟨a, _ | ⟨b, outs⟩⟩
  · simp only [returnHint, houts]
    exact .operation
  · simp only [returnHint, houts]
    exact .output (fitsOutput_bound lengths 0 a)
  · rw [← houts]
    have hhint : op.returnHint = containerName ++ '.' :: op.outputsClass := by
      simp only [returnHint, houts]
    have hfields : op.outputFields.map Prod.snd = op.outputs.map Argument.typeHint := by
      rw [outputFields, List.map_map]
      rfl
    have hlength : (boundValues lengths 0 op.outputs).length = op.outputs.length := by
      simpa using hfits.length_eq
    have hseveral : 2 ≤ (boundValues lengths 0 op.outputs).length := by
      rw [hlength, houts]
      simp
    rw [hhint, gathered_eq_record N op hseveral]
    rw [← hfields] at hfits
    exact .record hfits

end

/-! ### Running the end of a method -/

/-- What running the `outputsProgram` comes to, for outputs of the given lengths. -/
structure OutputsBound (N : NormalForm) (op : Operation) (lengths : Text → Nat)
    (start final : Scope) (result : Object) : Prop where
  /-- The variable of an output stands for the handles behind those of the outputs before it. -/
  bound : ∀ before a after, op.outputs = before ++ a :: after →
    final (a.key N) = some (a.bound lengths (totalSize lengths before))
  /-- Apart from the variables and the running names, each name stands for what it did. -/
  others : ∀ x, x ∉ op.outputs.map (·.key N) → x ∉ Naming.runningNames → final x = start x
  /-- All variables together stand for each handle once, in order, and they are returned. -/
  returned : ∃ values,
    op.outputs.map (fun a => final (a.key N)) = values.map some ∧
      values.flatMap Object.indices = List.range (totalSize lengths op.outputs) ∧
      result = op.gathered N values
  /-- The result fits the annotation of the method. -/
  annotation : op.Fits N result op.returnHint

section
variable {N : NormalForm} {op : Operation} {lengths : Text → Nat} {start final : Scope}
  {result : Object}

/-- Where the variables stand for the handles of the outputs, and the result is made of them, the
fields of `OutputsBound` hold. -/
theorem outputsBound
    (hbound : op.outputs.map (fun a => final (a.key N)) =
      (boundValues lengths 0 op.outputs).map some)
    (hothers : ∀ x, x ∉ op.outputs.map (·.key N) → x ∉ Naming.runningNames →
      final x = start x) :
    op.OutputsBound N lengths start final (op.gathered N (boundValues lengths 0 op.outputs)) where
  bound := by
    intro before a after hplace
    obtain ⟨behind, hvalues, hlength⟩ := boundValues_append_cons lengths 0 before a after
    rw [hplace, hvalues, List.map_append, List.map_append] at hbound
    have hbehind := (List.append_inj hbound (by simpa using hlength.symm)).2
    simpa using (List.cons.inj hbehind).1
  others := hothers
  returned := by
    refine ⟨_, hbound, ?_, rfl⟩
    rw [flatMap_indices_boundValues, List.range_eq_range']
  annotation := fits_gathered N op lengths

/-- Running the end of a method with `Bindable` outputs binds the outputs and returns them, by
`binds_flatMap` and the return behind it. -/
theorem execute_outputsProgram (lengths : Text → Nat)
    (hfree : ∀ a ∈ op.outputs, a.key N ∉ usedNames) (hbindable : op.Bindable N) :
    ∃ final result, execute (op.runtime N lengths) (op.entry N)
        (op.outputsProgram (·.key N) (op.tupleKey N)) = some (final, result) ∧
      op.OutputsBound N lengths (op.entry N) final result := by
  have hstart := hbindable.provides
  by_cases houts : op.outputs = []
  · -- There is nothing to count, so the index is not even bound.
    have hbound : op.outputs.map (fun a => op.entry N (a.key N)) =
        (boundValues lengths 0 op.outputs).map some := by
      rw [houts]
      rfl
    refine ⟨op.entry N, _, ?_, outputsBound hbound fun _ _ _ => rfl⟩
    rw [outputsProgram_of_eq_nil houts]
    exact execute_returnStatement hbindable hstart.nil hbound
  · -- The index starts at zero, whatever it stood for before.
    have hzero : (op.entry N).bind "_idx" (.number 0) "_idx" = some (.number 0) :=
      Scope.bind_self ..
    obtain ⟨final, hrun, hbinds⟩ := binds_flatMap (r := op.runtime N lengths)
      (hstart.bind (by decide) _) hzero hfree hbindable.assigned hbindable.distinct
      [op.returnStatement (·.key N) (op.tupleKey N)]
    have hothers : ∀ x, x ∉ op.outputs.map (·.key N) → x ∉ Naming.runningNames →
        final x = op.entry N x := by
      intro x hx hrunning
      rw [hbinds.others x hx hrunning, Scope.bind_of_ne _ _ (ne_of_not_running hrunning).1]
    have hfinal : final.Provides [] :=
      hstart.nil.of_others _ hothers fun a ha hmem => hfree a ha (List.mem_append_right _ hmem)
    refine ⟨final, _, ?_, outputsBound hbinds.bound hothers⟩
    have hvalue : Expr.eval (op.runtime N lengths) (op.entry N) (.operand (.number 0)) =
        some (.number 0) := rfl
    rw [outputsProgram_of_ne_nil houts, execute_assign (by decide) hvalue, hrun]
    exact execute_returnStatement hbindable hfinal hbinds.bound

/-- Where every variable stands for its own handle, as `OutputsBound` says, no two variables are
one: a variable has one value only. -/
theorem OutputsBound.nodup_keys (h : op.OutputsBound N (fun _ => 1) start final result) :
    (op.outputs.map (·.key N)).Nodup := by
  let g : Text → List Nat := fun x => ((final x).map Object.indices).getD []
  obtain ⟨values, hvalues, hindices, -⟩ := h.returned
  have hflat : (op.outputs.map (·.key N)).flatMap g = values.flatMap Object.indices := by
    have hmap := congrArg (List.map fun o => (Option.map Object.indices o).getD []) hvalues
    rw [List.map_map, List.map_map] at hmap
    rw [List.flatMap_map, List.flatMap_def, List.flatMap_def]
    exact congrArg List.flatten hmap
  have hnodup : ((op.outputs.map (·.key N)).flatMap g).Nodup := by
    rw [hflat, hindices]
    exact List.nodup_range
  refine (List.nodup_flatMap.mp hnodup).2.imp_of_mem fun {x y} hx _ hdisjoint heq => ?_
  -- A variable that is there twice would share its handle with itself.
  obtain ⟨a, ha, rfl⟩ := List.mem_map.mp hx
  obtain ⟨before, after, hplace⟩ := List.append_of_mem ha
  have hhandle : g (a.key N) = List.range' (totalSize (fun _ => 1) before) 1 := by
    have hsize : a.size (fun _ => 1) = 1 := ite_self 1
    show ((final (a.key N)).map Object.indices).getD [] = _
    rw [h.bound before a after hplace, Option.map_some, Option.getD_some, indices_bound, hsize]
  subst heq
  have hmem : totalSize (fun _ => 1) before ∈ g (a.key N) := by simp [hhandle]
  exact hdisjoint hmem hmem

/-- If the end of a method can be run for outputs of any lengths, and does what it is for, the
outputs are `Bindable`. It is enough to run it where each list has one handle. -/
theorem bindable_of_execute (hfree : ∀ a ∈ op.outputs, a.key N ∉ usedNames)
    (h : ∀ lengths, ∃ final result, execute (op.runtime N lengths) (op.entry N)
        (op.outputsProgram (·.key N) (op.tupleKey N)) = some (final, result) ∧
      op.OutputsBound N lengths (op.entry N) final result) : op.Bindable N := by
  obtain ⟨final, result, hrun, hbound⟩ := h fun _ => 1
  by_cases houts : op.outputs = []
  · -- Nothing is asked of an operation without outputs.
    exact ⟨hbound.nodup_keys, by simp [houts], fun hne => absurd houts hne, by simp [houts],
      by simp [houts]⟩
  rw [outputsProgram_of_ne_nil houts] at hrun
  obtain ⟨zero, -, -, hrun⟩ := execute_assign_iff.mp hrun
  have hkept : ∀ x ∈ providedNames, (op.entry N).bind "_idx" zero x = op.entry N x := fun x hx =>
    Scope.bind_of_ne _ _ ((show ∀ y ∈ providedNames, y ≠ "_idx" by decide) x hx)
  -- Past the statements for the outputs, what was in the way of none of them is known, and the
  -- names for the return stand for what they did at the start.
  obtain ⟨hunhindered, last, hreturn, hlast⟩ :=
    unhindered_of_execute_flatMap (hkept _ (by decide)) hfree hrun
  have hself : last "self" = some .graph :=
    (hlast _ (by decide)).trans (hkept _ (by decide))
  refine ⟨hbound.nodup_keys, hunhindered.assigned, fun _ => ?_, fun a ha hlist => ?_,
    fun hseveral => isField_of_execute_returnStatement hself hseveral hreturn⟩
  · obtain ⟨a, outs, houts⟩ := List.exists_cons_of_ne_nil houts
    have hsize : a.size (fun _ => 1) ≠ 0 := by
      rw [show a.size (fun _ => 1) = 1 from ite_self 1]
      decide
    have hgiven := hunhindered.outputType a (by simp [houts]) hsize
    rwa [hkept _ (by decide), Ne, entry_eq_given_iff (by decide)] at hgiven
  · have hgiven := hunhindered.rangeType a ha hlist
    rwa [hkept _ (by decide), Ne, entry_eq_given_iff (by decide)] at hgiven

end

/-- Take an operation whose outputs have words as names, none of which is looked up by a name that
the end of a method uses itself. Whatever the lengths of the outputs that are lists, running the
lines at the end of the method binds each variable to its handle or its list of handles, which
follow each other from zero on, and returns the operation, the only variable, or the named tuple of
all, whose fields are those that are declared. That is so exactly if the outputs are `Bindable`: no
two variables are the same identifier, none is `__debug__`, a named tuple takes them as fields, and
no parameter of the method is called `Output`, or, where an output is a list, `range`. -/
theorem outputsLines_bind_iff (N : NormalForm) (op : Operation)
    (htuple : 2 ≤ op.outputs.length → IsWord op.outputsClass)
    (houtputs : ∀ a ∈ op.outputs, IsWord a.name)
    (hfree : ∀ a ∈ op.outputs,
      a.key N ∉ (["_idx", "_n", "op", "self", "Output", "range"] : List Text)) :
    ((∀ lengths, ∃ final result,
        executeLines (N.key containerName) (op.runtime N lengths) (op.entry N) op.outputsLines =
          some (final, result) ∧
        op.OutputsBound N lengths (op.entry N) final result) ↔ op.Bindable N) ∧
      (2 ≤ op.outputs.length → ∃ docstring, op.outputsClassBlock =
        { text := "class " ++ op.outputsClass ++ "(NamedTuple):" } ::
          deeper (docstring :: op.outputFields.map fun f => { text := f.1 ++ ": " ++ f.2 })) := by
  refine ⟨?_, outputsClassBlock_eq⟩
  simp only [executeLines_outputsLines N htuple houtputs]
  exact ⟨bindable_of_execute hfree, fun hbindable lengths =>
    execute_outputsProgram lengths hfree hbindable⟩

/-- An operation with single outputs around two lists of them. Its outputs are `Bindable`. -/
def unpack : Operation where
  name := "Unpack"
  outputs :=
    [{ name := "out" }, { name := "parts", numberAttr := "N" },
      { name := "rest", typeListAttr := "T" }, { name := "last" }]

/-- The lengths of the two lists of `unpack`: there are two parts and no rest. -/
def unpackLengths (output : Text) : Nat := if output = "parts" then 2 else 0

/-- The lines at the end of the method for `unpack`. -/
def unpackLines : List Text :=
  ["_idx = 0", "output = Output(op, _idx)", "_idx += 1",
    "_n = op.get_output_list_length(\"parts\")",
    "parts = [Output(op, _idx + i) for i in range(_n)]", "_idx += _n",
    "_n = op.get_output_list_length(\"rest\")",
    "rest = [Output(op, _idx + i) for i in range(_n)]", "_idx += _n",
    "last = Output(op, _idx)", "_idx += 1",
    "return self.UnpackOutputs(output, parts, rest, last)"]

/-- Running the lines of `unpack` binds four handles to four variables, and the list `rest` to none.
-/
theorem outputsLines_bind_unpack :
    ∃ final, executeLines (NormalForm.plain.key containerName)
        (unpack.runtime .plain unpackLengths) (unpack.entry .plain) unpackLines =
          some (final, .record "UnpackOutputs"
            [("output", .handle 0), ("parts", .list [.handle 1, .handle 2]), ("rest", .list []),
              ("last", .handle 3)]) ∧
      final "parts" = some (.list [.handle 1, .handle 2]) ∧ final "last" = some (.handle 3) := by
  have hlines : unpack.outputsLines = unpackLines := by
    -- Written out as characters, the lines are not decoded again at each step.
    rw [unpackLines]
    repeat rw [String.toList_ofList]
    decide +kernel
  have hbindable : unpack.Bindable .plain :=
    ⟨by decide, by decide, fun _ => by decide, by decide, fun _ => by decide⟩
  obtain ⟨final, result, hrun, hbound⟩ :=
    (outputsLines_bind_iff .plain unpack (fun _ => by decide) (by decide) (by decide)).1.mpr
      hbindable unpackLengths
  have hfirst : final "output" = some (.handle 0) := hbound.bound [] _ _ rfl
  have hparts : final "parts" = some (.list [.handle 1, .handle 2]) :=
    hbound.bound [{ name := "out" }] _ _ rfl
  have hrest : final "rest" = some (.list []) :=
    hbound.bound [{ name := "out" }, { name := "parts", numberAttr := "N" }] _ _ rfl
  have hlast : final "last" = some (.handle 3) :=
    hbound.bound [{ name := "out" }, { name := "parts", numberAttr := "N" },
      { name := "rest", typeListAttr := "T" }] _ _ rfl
  have htuple : unpack.tupleKey .plain = "UnpackOutputs" := by decide
  have hfields : unpack.fieldNames .plain =
      ["output".toList, "parts".toList, "rest".toList, "last".toList] := by decide
  have hkeys : unpack.outputs.map (·.key .plain) =
      ["output".toList, "parts".toList, "rest".toList, "last".toList] := by decide
  obtain ⟨values, hvalues, -, hresult⟩ := hbound.returned
  have hvalues : [Object.handle 0, .list [.handle 1, .handle 2], .list [], .handle 3] = values := by
    have hfinal : (unpack.outputs.map (·.key .plain)).map final = values.map some := by
      rw [List.map_map]
      exact hvalues
    rw [hkeys] at hfinal
    simp only [List.map_cons, List.map_nil, hfirst, hparts, hrest, hlast] at hfinal
    exact List.map_injective_iff.mpr (Option.some_injective _) hfinal
  refine ⟨final, ?_, hparts, hlast⟩
  rw [hlines, hresult, ← hvalues, gathered_eq_record _ _ (by simp), htuple, hfields] at hrun
  exact hrun

/-- An operation with an input called `range` and a list of outputs. -/
def split : Operation where
  name := "Split"
  inputs := [{ name := "range" }]
  outputs := [{ name := "parts", numberAttr := "N" }]

/-- An operation with two outputs, one of which begins with a low line and so is no `IsField`. -/
def halve : Operation where
  name := "Halve"
  outputs := [{ name := "_low" }, { name := "high" }]

/-- The variables of the outputs are distinct, and none of the names that the lines use. Unlike
`Bindable`, it says nothing of parameters and fields. -/
def VariablesApart (op : Operation) : Prop :=
  (op.outputs.map fun a => parameter a.name).Nodup ∧
    ∀ a ∈ op.outputs, parameter a.name ∉ (["_idx", "_n", "Output", "range"] : List Text)

instance (op : Operation) : Decidable op.VariablesApart :=
  inferInstanceAs (Decidable (_ ∧ _))

/-- What the `outputsLines` come to where every list has one output, or nothing if a statement
fails. -/
def outcome? (op : Operation) : Option (Scope × Object) :=
  executeLines (NormalForm.plain.key containerName) (op.runtime .plain fun _ => 1)
    (op.entry .plain) op.outputsLines

/-- That the variables are apart is not enough: in `split` the range of a list is asked of an input,
and the graph has no named tuple for `halve`. -/
theorem not_outputsLines_bind :
    split.VariablesApart ∧ split.outcome?.isNone = true ∧
      halve.VariablesApart ∧ halve.outcome?.isNone = true := by
  decide +kernel

end Operation

end TypedOps
