import TypedOps.Proofs.Emit.Parameters
import TypedOps.Proofs.Layout.Locality
import TypedOps.Proofs.Layout.Steady

/-!
# `TypedOps.Proofs.Layout.Idempotence`: generated modules are laid out once

The code of a generated module is tame: `tame_body` and the lemmas in front of it go through the
statements of a method one after the other, as the generator writes them. What they use of a name
is that it holds no bracket, no equals sign and no white space. The first two come with
identifiers. `IsIdentifier` leaves open which code points beyond ASCII may stand in a name, so
that none of them is white space is asked for by `Operation.UnspacedNames`.

Docstrings that close are scanned as docstrings, and all the rest is code
(`tame_markedModule`). `format_format_generateModule` puts this together.
-/

set_option autoImplicit false

namespace TypedOps

open Layout (CallHead Compact Tame Unspaced scan tame_call)
open Naming (parameter)
open Operation (Pieces)
open Text

/-! ### Names -/

/-- The names in an operation's signature hold no white space (`Unspaced`). Identifiers of ASCII do
not, but Unicode has word characters that count as blanks. -/
structure Operation.UnspacedNames (op : Operation) : Prop where
  name : Unspaced op.name
  inputs : ∀ a ∈ op.inputs, Unspaced a.name
  outputs : ∀ a ∈ op.outputs, Unspaced a.name
  attributes : ∀ a ∈ op.attributes, Unspaced a.name

/-- A name without white space gives a `parameter` without any. -/
theorem unspaced_parameter {name : Text} (h : Unspaced name) : Unspaced (parameter name) := by
  have hreadable : ∀ e ∈ Naming.readableNames, Unspaced e.2 := by decide
  rcases Naming.parameter_cases name with (hmem | ⟨-, heq⟩) | ⟨heq, -⟩
  · exact hreadable _ hmem
  · rw [heq]
    exact List.forall_mem_append.mpr ⟨h, by decide⟩
  · rwa [heq]

/-- Quotes around a name without white space leave it `Compact`. -/
theorem compact_between {name : Text} (h : Unspaced name) : Compact (Binding.between name) := by
  have hquoted : Unspaced (Binding.between name) :=
    List.forall_mem_append.mpr ⟨List.forall_mem_cons.mpr ⟨by decide, h⟩, by decide⟩
  exact hquoted.compact

/-- The `parameter` for an identifier holds no bracket. -/
theorem bracket_not_mem_parameter {name : Text} (h : IsIdentifier name) : '(' ∉ parameter name :=
  (Naming.isIdentifier_parameter h).not_mem (by decide)

/-! ### Blocks -/

/-- Indentation makes no difference to whether a line is `Tame`. -/
theorem tame_render (level : Int) {line : Line} (h : Tame line.text) :
    Tame (line.render level) := by
  rw [Line.render, indented]
  split
  · exact .bare (by simp)
  · refine h.indented fun c hc => ?_
    rw [List.eq_of_mem_replicate hc]
    decide

/-- Code that is `Tame` is so at any level. -/
theorem tame_asCode {level : Int} {block : List Line} (h : ∀ line ∈ block, Tame line.text) :
    ∀ line ∈ asCode level block, line.inDocstring = false → Tame line.text := by
  intro line hline _
  obtain ⟨above, habove, rfl⟩ := List.mem_map.mp hline
  exact tame_render level (h above habove)

/-- Nothing is asked of a block `asDocstring`, whose lines are left alone. -/
theorem tame_asDocstring {level : Int} {block : List Line} :
    ∀ line ∈ asDocstring level block, line.inDocstring = false → Tame line.text := by
  intro line hline hmark
  obtain ⟨above, -, rfl⟩ := List.mem_map.mp hline
  cases hmark

/-! ### The statements of a method -/

/-- The statement that begins the description is `Tame`. -/
theorem tame_newDescription {name : Text} (h : Unspaced name) :
    ∀ line ∈ Binding.newDescription name, Tame line.text := by
  have hname := compact_between h
  have hrest : Compact ("self, " ++ (Binding.between name ++ (", self.make_name(" ++
      (Binding.between name ++ ", name))")))) :=
    .append (by decide) (hname.append (.append (by decide) (hname.append (by decide))))
  refine List.forall_mem_singleton.mpr ?_
  exact tame_call "desc = OperationDescription" _ (by simp) (by decide) hrest

/-- The statement that adds an input is `Tame`. -/
theorem tame_addInput {expr : Text} (h : Unspaced expr) (isList : Bool) :
    ∀ line ∈ Binding.addInput expr isList, Tame line.text := by
  have hrest : Compact (expr ++ [')']) := h.compact.append (by decide)
  refine List.forall_mem_singleton.mpr ?_
  cases isList with
  | true => exact tame_call "desc.add_inputs" _ (by simp) (by decide) hrest
  | false => exact tame_call "desc.add_input" _ (by simp) (by decide) hrest

/-- The loop over control inputs is `Tame`, line by line. -/
theorem tame_addControlInputs : ∀ line ∈ Binding.addControlInputs, Tame line.text := by
  refine List.forall_mem_cons.mpr ⟨.bare (by decide), List.forall_mem_singleton.mpr ?_⟩
  exact tame_call "desc.add_control_input" "control)" (by decide) (by decide) (by decide)

/-- A value that goes through a constructor is `Compact` if it is without white space itself. -/
theorem compact_coerced (tag : Text) {expr : Text} (h : Unspaced expr) :
    Compact (Binding.coerced tag expr) := by
  rw [Binding.coerced]
  split
  · next constructor hconstructor =>
    rw [TypeTag.constructor?] at hconstructor
    split at hconstructor
    · cases hconstructor
    · obtain ⟨e, -, he⟩ := Option.bind_eq_some_iff.mp hconstructor
      have hcompact : Compact constructor := by
        -- The names of the constructors are fixed and hold no white space.
        cases e <;> cases he <;> decide
      have hopened : Compact (constructor ++ '(' :: expr) :=
        hcompact.append (Compact.append (by decide : Compact ['(']) h.compact)
      exact hopened.append (by decide)
  · exact h.compact

/-- The statement that sets an attribute is `Tame`, being a call with compact arguments. -/
theorem tame_setting {b : Binding} {a : Attribute}
    (hfit : Operation.Annotated TypeTable.standard a) (h : Unspaced a.name) :
    Tame (setting b a).text := by
  obtain ⟨e, htag, -⟩ := exists_element hfit
  have hvalue := compact_coerced a.tag (unspaced_parameter h)
  have hrest : Compact (Binding.between a.name ++
      (", " ++ (Binding.coerced a.tag (parameter a.name) ++ [')']))) :=
    (compact_between h).append (.append (by decide) (hvalue.append (by decide)))
  have hline : (setting b a).text = b.setterName a.tag ++ '(' :: (Binding.between a.name ++
      (", " ++ (Binding.coerced a.tag (parameter a.name) ++ [')']))) := by
    simp only [setting, settingCall, List.append_assoc]
  -- The setter is named for the element, and for a list of them.
  have hsetter : CallHead (b.setterName a.tag) := by
    have hall : ∀ l : Bool, CallHead (("desc.set_attr" : Text) ++
        ('_' :: e.tag ++ if l then ("_list" : Text) else [])) := by
      cases e <;> decide
    have hshared : CallHead "desc.set_attr" := by decide
    cases b with
    | typed =>
      have hname : Binding.typed.setterName a.tag = ("desc.set_attr" : Text) ++
          ('_' :: e.tag ++ if (TypeTag.split a.tag).2 then ("_list" : Text) else []) := by
        rw [← htag]
        rfl
      rw [hname]
      exact hall _
    | graph => exact hshared
    | base => exact hshared
  exact tame_call _ _ hline hsetter hrest

/-- The statements that finish an operation are `Tame`, under every binding. -/
theorem tame_finishOperation {b : Binding} {operation : Text} {block : List Line}
    (hop : Unspaced operation) (h : b.finishOperation operation = .ok block) :
    ∀ line ∈ block, Tame line.text := by
  -- The line that raises is the one with a name in it. All others are fixed.
  have hraise : Tame (Binding.raiseCreateError operation).text := by
    have hrest : Compact (Binding.between operation ++ ", status.message)") :=
      (compact_between hop).append (by decide)
    exact tame_call "raise OpCreateError" _ (by simp [Binding.raiseCreateError])
      (by decide) hrest
  have hstatus : Tame "status = Status()" :=
    tame_call "status = Status" ")" (by decide) (by decide) (by decide)
  have hfinish : Tame "op = desc.finish_operation(status)" :=
    tame_call "op = desc.finish_operation" "status)" (by decide) (by decide) (by decide)
  have hfailed : Tame "if not status.ok:" := .bare (by decide)
  have hwith : Tame "with Status() as status:" := .statement (by decide) (by decide)
  have herror : Tame "if status.error:" := .bare (by decide)
  refine Binding.forall_finishOperation ?_ hraise h
  simp only [finishingTexts, List.forall_mem_cons]
  exact ⟨hstatus, hfinish, hfailed, hwith, herror, List.forall_mem_nil _⟩

/-- A call whose value is given a name is `Tame`. No parameter is called `class`. -/
theorem tame_assignment {name : Text} (hname : IsIdentifier name) (hspaced : Unspaced name)
    (front rest : Text) (hfront : '(' ∉ front) (hrest : Compact rest) :
    Tame (parameter name ++ (" = " ++ (front ++ '(' :: rest))) := by
  have hidentifier := Naming.isIdentifier_parameter hname
  have hword : ∀ c ∈ parameter name, isBlank c = false ∧ c ≠ '=' := fun c hc =>
    ⟨unspaced_parameter hspaced c hc, fun heq => hidentifier.not_mem (by decide) (heq ▸ hc)⟩
  have hopen : parameter name ++ (" = " ++ (front ++ '(' :: rest)) =
      parameter name ++ (" = " ++ front) ++ '(' :: rest := by simp
  refine .call hopen ?_ ?_ hrest.free
  · exact List.not_mem_append (bracket_not_mem_parameter hname)
      (List.not_mem_append (by decide) hfront)
  · rw [Layout.leadingWord_assignment hword]
    intro heq
    exact Naming.parameter_not_mem_reserved name (heq ▸ by decide)

namespace Operation

variable {op : Operation} {b : Binding} {doc : Documentation}

/-- The statements that set the attributes of an operation are `Tame`, guards included. -/
theorem tame_settings (hnames : op.WellNamed) (hspaced : op.UnspacedNames)
    (hfit : ∀ a ∈ op.parameterAttributes, Annotated TypeTable.standard a) :
    ∀ line ∈ op.parameterAttributes.flatMap (settingStatements b), Tame line.text := by
  intro line hline
  obtain ⟨a, ha, hline⟩ := List.mem_flatMap.mp hline
  have hmem : a ∈ op.attributes := ((mem_parameterAttributes_iff op a).mp ha).1
  rcases List.mem_append.mp hline with hline | hline
  · rw [guards] at hline
    split at hline
    · rw [List.mem_singleton.mp hline]
      have hfree := bracket_not_mem_parameter (hnames.attributes a hmem)
      exact .bare (by simp [hfree])
    · cases hline
  · rw [List.mem_singleton.mp hline]
    exact tame_setting (hfit a ha) (hspaced.attributes a hmem)

/-- The statements that bind one output are `Tame`, also those for a list. -/
theorem tame_bindOutput {a : Argument} (hname : IsIdentifier a.name) (hspaced : Unspaced a.name) :
    ∀ line ∈ bindOutput a, Tame line.text := by
  rw [bindOutput]
  split
  -- Written out, the statement assigns a list display, so for the wrapper the called thing begins
  -- with a bracket.
  · have hkey : Compact (Binding.between a.name ++ [')']) :=
      (compact_between hspaced).append (by decide)
    have hcount : Tame ("_n = op.get_output_list_length(" ++ Binding.between a.name ++ [')']) :=
      tame_call "_n = op.get_output_list_length" _ (by simp) (by decide) hkey
    have hcollect : (" = [Output(op, _idx + i) for i in range(_n)]" : Text) =
        " = " ++ ("[Output" ++ '(' :: "op, _idx + i) for i in range(_n)]") := by decide +kernel
    have hhandles := tame_assignment hname hspaced "[Output"
      "op, _idx + i) for i in range(_n)]" (by decide) (by decide)
    have hnext : Tame "_idx += _n" := .bare (by decide)
    simp only [List.forall_mem_cons]
    exact ⟨hcount, hcollect ▸ hhandles, hnext, List.forall_mem_nil _⟩
  · have hcall : (" = Output(op, _idx)" : Text) = " = " ++ ("Output" ++ '(' :: "op, _idx)") := by
      decide
    have hhandle := tame_assignment hname hspaced "Output" "op, _idx)" (by decide) (by decide)
    have hnext : Tame "_idx += 1" := .bare (by decide)
    simp only [List.forall_mem_cons]
    exact ⟨hcall ▸ hhandle, hnext, List.forall_mem_nil _⟩

/-- The statements that bind all outputs are `Tame`. -/
theorem tame_outputsBlock (hnames : op.WellNamed) (hspaced : op.UnspacedNames) :
    ∀ line ∈ op.outputsBlock, Tame line.text := by
  rw [outputsBlock]
  split
  · simp
  · refine List.forall_mem_cons.mpr ⟨.bare (by decide), fun line hline => ?_⟩
    obtain ⟨a, ha, hline⟩ := List.mem_flatMap.mp hline
    exact tame_bindOutput (hnames.outputs a ha) (hspaced.outputs a ha) line hline

/-- The statement that returns the result is `Tame`, in each of its forms. -/
theorem tame_returnLine (hnames : op.WellNamed) (hspaced : op.UnspacedNames) :
    Tame op.returnLine.text := by
  rw [returnLine]
  split
  · exact .bare (by decide)
  · next a hout =>
    have hfree := bracket_not_mem_parameter (hnames.outputs a (by simp [hout]))
    exact .bare (by simp [hfree])
  · have hvalues : Compact (join ", " (op.outputs.map fun a => parameter a.name) ++ [')']) := by
      refine .append (Layout.compact_join fun value hvalue => ?_) (by decide)
      obtain ⟨a, ha, rfl⟩ := List.mem_map.mp hvalue
      exact (unspaced_parameter (hspaced.outputs a ha)).compact
    -- Only the return of a tuple has a bracket, with nothing in front of it that could be a
    -- keyword.
    have hfront : '(' ∉ ("return self." : Text) ++ op.outputsClass :=
      List.not_mem_append (by decide)
        (List.not_mem_append (hnames.name.not_mem (by decide)) (by decide))
    exact tame_call _ _ (by simp) ⟨hfront, rfl⟩ hvalues

/-- The statements of a method behind its docstring are `Tame`. -/
theorem tame_body {p : Pieces} (hnames : op.WellNamed) (hspaced : op.UnspacedNames)
    (hfit : ∀ a ∈ op.parameterAttributes, Annotated TypeTable.standard a)
    (h : op.pieces TypeTable.standard b doc = .ok p) : ∀ line ∈ p.body op, Tame line.text := by
  obtain ⟨-, -, hsetters, hfinish⟩ := (pieces_eq_ok_iff _ b op doc p).mp h
  -- The base binding finishes no operation, so it has no pieces.
  have hb : b ≠ .base := by
    rintro rfl
    cases hfinish
  rw [settersBlock_eq_ok hb hfit, Except.ok.injEq] at hsetters
  have hinputs : ∀ line ∈ op.inputs.flatMap fun a =>
      Binding.addInput (parameter a.name) a.isList, Tame line.text := by
    intro line hline
    obtain ⟨a, ha, hline⟩ := List.mem_flatMap.mp hline
    exact tame_addInput (unspaced_parameter (hspaced.inputs a ha)) a.isList line hline
  simp only [Pieces.body, List.forall_mem_append, ← hsetters]
  exact ⟨tame_newDescription hspaced.name, hinputs, tame_addControlInputs,
    tame_settings hnames hspaced hfit, tame_finishOperation hspaced.name hfinish,
    tame_outputsBlock hnames hspaced,
    List.forall_mem_singleton.mpr (tame_returnLine hnames hspaced)⟩

/-- The annotation of an attribute is `Compact`, with the mark of a parameter that may be left out
or without it. -/
theorem compact_hint {a : Attribute} (hfit : Annotated TypeTable.standard a) (isOptional : Bool) :
    Compact ((TypeTag.typeHint? TypeTable.standard a.tag).getD [] ++
      if isOptional then optionalMark else []) := by
  obtain ⟨e, -, hmapped⟩ := exists_element hfit
  rw [TypeTag.typeHint?, hmapped]
  generalize (TypeTag.split a.tag).2 = isList
  cases e <;> cases isList <;> cases isOptional <;> decide

/-- The annotation of an input or an output is `Compact`. -/
theorem compact_typeHint (a : Argument) : Compact a.typeHint := by
  rw [Argument.typeHint]
  cases a.isList <;> decide

/-- The parameters of a method are `Compact`, each for itself. -/
theorem compact_signatureParams {params : List Text} (hspaced : op.UnspacedNames)
    (hfit : ∀ a ∈ op.parameterAttributes, Annotated TypeTable.standard a)
    (h : op.signatureParams TypeTable.standard = .ok params) : ∀ param ∈ params, Compact param := by
  rw [signatureParams_eq_ok hfit, Except.ok.injEq] at h
  have hdeclared : ∀ name hint, Unspaced name → Compact hint →
      Compact (parameter name ++ ": " ++ hint) := fun name hint hname hhint =>
    ((unspaced_parameter hname).compact.append (by decide)).append hhint
  subst h
  simp only [List.forall_mem_cons, List.forall_mem_append, List.forall_mem_map]
  refine ⟨by decide, ⟨fun a ha => ?_, fun a ha => ?_⟩, by decide, by simp⟩
  · exact hdeclared _ _ (hspaced.inputs a ha) (compact_typeHint a)
  · exact hdeclared _ _ (hspaced.attributes a ((mem_parameterAttributes_iff op a).mp ha).1)
      (compact_hint (hfit a ha) a.hasDefault)

/-- The annotation of what a method returns is `Compact`. -/
theorem compact_returnHint (hspaced : op.UnspacedNames) : Compact op.returnHint := by
  rw [returnHint]
  split
  · decide
  · next a _ => exact compact_typeHint a
  · have hclass : Unspaced op.outputsClass := List.forall_mem_append.mpr ⟨hspaced.name, by decide⟩
    exact Compact.append (by decide : Compact containerName)
      (Compact.append (by decide : Compact ['.']) hclass.compact)

/-- The line that opens a method is `Tame`, as a definition whose parameters are compact. -/
theorem tame_defLine {params : List Text} (hnames : op.WellNamed) (hspaced : op.UnspacedNames)
    (hfit : ∀ a ∈ op.parameterAttributes, Annotated TypeTable.standard a)
    (h : op.signatureParams TypeTable.standard = .ok params) : Tame (op.defLine params).text := by
  have hrest : Compact (join ", " params ++ (") -> " ++ (op.returnHint ++ [':']))) :=
    (Layout.compact_join (compact_signatureParams hspaced hfit h)).append
      (.append (by decide) ((compact_returnHint hspaced).append (by decide)))
  have hfront : '(' ∉ ("def " : Text) ++ Naming.method op.name :=
    List.not_mem_append (by decide)
      (Naming.not_mem_method_of_isIdentifier hnames.name (by decide) (by decide))
  exact tame_call _ _ (by simp [defLine]) ⟨hfront, rfl⟩ hrest

/-- The code in the named tuple of the outputs is `Tame`. -/
theorem tame_markedOutputsClass (hnames : op.WellNamed) :
    ∀ line ∈ op.markedOutputsClass, line.inDocstring = false → Tame line.text := by
  -- A class line has a bracket, but it assigns nothing and begins with another letter than a
  -- function.
  have hopening : Tame ("class " ++ op.outputsClass ++ "(NamedTuple):") := by
    refine .statement ?_ ?_
    · have hfree : '=' ∉ op.name := hnames.name.not_mem (by decide)
      simp [outputsClass, hfree]
    · exact (by decide : some 'c' ≠ some 'd')
  have hfields : ∀ line ∈ deeper (op.outputs.map fun a =>
      ({ text := parameter a.name ++ ": " ++ a.typeHint } : Line)), Tame line.text := by
    intro line hline
    obtain ⟨above, habove, rfl⟩ := List.mem_map.mp hline
    obtain ⟨a, ha, rfl⟩ := List.mem_map.mp habove
    have hhint : '(' ∉ a.typeHint := by
      rw [Argument.typeHint]
      cases a.isList <;> decide
    exact .bare (by simp [bracket_not_mem_parameter (hnames.outputs a ha), hhint])
  have hcases : op.outputsClassBlock = [] ∨ ∃ docstring, op.outputsClassBlock =
      { text := "class " ++ op.outputsClass ++ "(NamedTuple):" } :: docstring ::
        deeper (op.outputs.map fun a => { text := parameter a.name ++ ": " ++ a.typeHint }) := by
    rw [outputsClassBlock]
    split
    · exact .inl rfl
    · exact .inl rfl
    · exact .inr ⟨_, rfl⟩
  rw [markedOutputsClass]
  rcases hcases with hnone | ⟨docstring, hblock⟩
  · simp [hnone, asCode]
  · rw [hblock]
    simp only [List.forall_mem_append]
    exact ⟨tame_asCode (List.forall_mem_singleton.mpr hopening), tame_asDocstring,
      tame_asCode hfields⟩

/-- The code of a method is `Tame`: its named tuple, its opening line and its body. -/
theorem tame_marked {p : Pieces} (hnames : op.WellNamed) (hspaced : op.UnspacedNames)
    (hfit : ∀ a ∈ op.parameterAttributes, Annotated TypeTable.standard a)
    (h : op.pieces TypeTable.standard b doc = .ok p) :
    ∀ line ∈ p.marked op, line.inDocstring = false → Tame line.text := by
  obtain ⟨hparams, -⟩ := (pieces_eq_ok_iff _ b op doc p).mp h
  have hdef : ∀ line ∈ [op.defLine p.params], Tame line.text :=
    List.forall_mem_singleton.mpr (tame_defLine hnames hspaced hfit hparams)
  have hbody : ∀ line ∈ deeper (p.body op), Tame line.text := by
    intro line hline
    obtain ⟨above, habove, rfl⟩ := List.mem_map.mp hline
    exact tame_body hnames hspaced hfit h above habove
  simp only [Pieces.marked, List.forall_mem_append]
  exact ⟨tame_markedOutputsClass hnames, tame_asCode hdef, tame_asDocstring, tame_asCode hbody⟩

end Operation

/-! ### The module -/

/-- The code of a generated module is `Tame`, method by method. -/
theorem tame_markedModule {b : Binding} {docs : Text → Option Documentation}
    {written : List (Operation × Pieces)} (hnames : ∀ w ∈ written, w.1.WellNamed)
    (hspaced : ∀ w ∈ written, w.1.UnspacedNames)
    (hfit : ∀ w ∈ written, ∀ a ∈ w.1.parameterAttributes,
      Operation.Annotated TypeTable.standard a)
    (hwritten : ∀ w ∈ written, IsWritten TypeTable.standard b docs w) :
    ∀ line ∈ markedModule b written, line.inDocstring = false → Tame line.text := by
  -- The lines around the methods are fixed. Those of the import section hold a bracket, but assign
  -- nothing.
  have himports : ∀ line ∈ b.importLines.map fun t => ({ text := t } : Line), Tame line.text := by
    have hall : ∀ t ∈ b.importLines, '=' ∉ t ∧ (t.dropWhile isBlank).head? ≠ some 'd' := by
      rw [Binding.importLines, Binding.runtimeNames]
      repeat rw [String.toList_ofList]
      cases b <;> decide +kernel
    intro line hline
    obtain ⟨t, ht, rfl⟩ := List.mem_map.mp hline
    exact .statement (hall t ht).1 (hall t ht).2
  have hopening : ∀ line ∈ containerOpening.take 1, Tame line.text := by
    have hall : ∀ line ∈ containerOpening.take 1, '(' ∉ line.text := by decide
    exact fun line hline => .bare (hall line hline)
  have hclosing : ∀ line ∈ containerClosing, Tame line.text := by
    have hall : ∀ line ∈ containerClosing, '(' ∉ line.text := by decide
    exact fun line hline => .bare (hall line hline)
  have hmethods : ∀ line ∈ written.flatMap fun w => w.2.marked w.1,
      line.inDocstring = false → Tame line.text := by
    intro line hline
    obtain ⟨w, hw, hline⟩ := List.mem_flatMap.mp hline
    obtain ⟨doc, -, hp⟩ := hwritten w hw
    exact Operation.tame_marked (hnames w hw) (hspaced w hw) (hfit w hw) hp line hline
  simp only [markedModule, markedOpening, List.forall_mem_append]
  exact ⟨tame_asCode himports, ⟨tame_asCode hopening, tame_asDocstring⟩, hmethods,
    tame_asCode hclosing, List.forall_mem_singleton.mpr fun _ => .bare (by simp)⟩

/-- The module generated from clean input is left alone by a second `format`, under every binding.
-/
theorem format_format_generateModule {b : Binding} {ops : List Operation}
    {docs : Text → Option Documentation} {warnings : List Warning} {m : GeneratedModule}
    (hclean : CleanInput ops docs) (hspaced : ∀ op ∈ ops, op.UnspacedNames)
    (h : generateModule TypeTable.standard b ops docs = (warnings, .ok m)) :
    Layout.format (Layout.format m.code) = Layout.format m.code := by
  obtain ⟨written, -, hcode, hwritten⟩ := written_of_cleanInput hclean h
  have hnames : ∀ w ∈ written, w.1.WellNamed := fun w hw => hclean.names w.1 (hwritten w hw).1
  have hpieces : ∀ w ∈ written, IsWritten TypeTable.standard b docs w := fun w hw =>
    (hwritten w hw).2.2.1
  -- The docstrings close, so the scanner finds those that were written and no others.
  have hscan : scan (lines m.code) = markedModule b written := by
    rw [hcode, lines_moduleCode TypeTable.standard_isPlain hnames hpieces]
    exact (agrees_markedModule_iff TypeTable.standard_isPlain hnames hpieces).mpr fun w hw =>
      (hwritten w hw).2.2.2
  refine Layout.format_format fun line hline hmark => ?_
  rw [hscan] at hline
  exact (tame_markedModule hnames (fun w hw => hspaced w.1 (hwritten w hw).1)
    (fun w hw => annotated_of_skipReason? (hwritten w hw).2.1) hpieces line hline
      hmark).steady

/-- The module of `Pool` is laid out with a line too long to stay as it is, and laying it out again
changes nothing. -/
theorem format_format_generateModule_pool :
    CleanInput [Sample.pool] Sample.poolDocs ∧ (∀ op ∈ [Sample.pool], op.UnspacedNames) ∧
      ∃ m, generateModule TypeTable.standard .graph [Sample.pool] Sample.poolDocs = ([], .ok m) ∧
        (∃ line ∈ lines m.code, Layout.lineLimit < line.length) ∧
        Layout.format (Layout.format m.code) = Layout.format m.code := by
  have hclean : CleanInput [Sample.pool] Sample.poolDocs := by
    -- Clean input is a matter of names, of texts in the signature and of texts in the
    -- documentation, which are closed here.
    refine ⟨?_, ?_, fun name doc hdoc => ?_⟩
    · exact List.forall_mem_singleton.mpr ⟨by decide, by decide, by decide, by decide⟩
    · refine List.forall_mem_singleton.mpr ⟨(untripled_iff _).mpr (by decide), fun a ha t ht => ?_⟩
      have hnone : ∀ a ∈ Sample.pool.attributes, a.defaultValue.strings = [] := by decide
      rw [hnone a ha] at ht
      cases ht
    · rw [Sample.poolDocs] at hdoc
      split at hdoc
      · next hname =>
        subst hname
        cases hdoc
        exact ⟨(untripled_iff _).mpr (by decide), (untripled_iff _).mpr rfl, by simp, by simp,
          by simp, (untripled_iff _).mpr rfl⟩
      · cases hdoc
  have hspaced : ∀ op ∈ [Sample.pool], op.UnspacedNames :=
    List.forall_mem_singleton.mpr ⟨by decide, by decide, by decide, by decide⟩
  obtain ⟨m, hrun, hlong⟩ : ∃ m,
      generateModule TypeTable.standard .graph [Sample.pool] Sample.poolDocs = ([], .ok m) ∧
        ∃ line ∈ lines m.code, Layout.lineLimit < line.length := by
    have hsorted : sortedByName [Sample.pool] = [Sample.pool] := by simp [sortedByName]
    rw [generateModule, hsorted]
    refine ⟨_, rfl, ?_⟩
    rw [moduleCode, moduleLines, containerOpening, containerDocstring, Binding.importLines,
      Binding.runtimeNames]
    repeat rw [String.toList_ofList]
    decide +kernel
  exact ⟨hclean, hspaced, m, hrun, hlong, format_format_generateModule hclean hspaced hrun⟩

end TypedOps
