import TypedOps.Proofs.Emit.AsciiNames
import TypedOps.Proofs.Emit.LineFeeds
import TypedOps.Proofs.Emit.Parameters
import TypedOps.Proofs.Layout.Arguments
import TypedOps.Proofs.Layout.Shapes
import TypedOps.Proofs.Layout.Steady

/-!
# `TypedOps.Proofs.Layout.Statements`: how the statements of a method are laid out

Two kinds of statement behind the docstring of a method may be wrapped: the call that describes the
operation, and the calls that make its outputs. `Pieces.bodyLayout` writes down what they become,
with the arguments taken from where the call is put together and not from the line. That the lines
come out so is shown statement by statement.

* `Idle`: a statement opens nothing, so the blank lines around it stay. Names are arbitrary, and
  one may be called `definition` or `class`; what stands behind it decides.
* `Quiet`: it is not wrapped either.
* `LaidOutAs`: what a block of statements becomes at every level. It passes from parts to what is
  put together from them, and `Operation.laidOutAs_body` puts together a method.
-/

set_option autoImplicit false

namespace TypedOps

open Layout
open Naming (parameter)
open Operation (Pieces)
open Text

/-! ### Layouts -/

namespace Layout

/-- An assignment of a call: as it is, or with one argument a line if it is longer than `lineLimit`.
-/
def callLayout (level : Int) (target callee : Text) (args : List Text) : List Text :=
  let line :=
    indentation level ++ (target ++ (" = " ++ (callee ++ '(' :: (join ", " args ++ [')']))))
  if line.length ≤ lineLimit then [line]
  else (indentation level ++ target ++ " = " ++ callee ++ ['(']) ::
    (itemLines (indentation level) args ++ [indentation level ++ [')']])

end Layout

namespace Operation

/-- The laid out statements that bind the variable of an output. Those for a list are no calls with
several arguments, so only the others have a `callLayout`. -/
def bindingLayout (level : Int) (a : Argument) : List Text :=
  if a.isList then (bindOutput a).map (Line.render level)
  else callLayout level (parameter a.name) "Output" ["op", "_idx"] ++
    [indentation level ++ "_idx += 1"]

/-- The laid out statements that bind the outputs, the `bindingLayout` of each, none if there is no
output. -/
def outputsLayout (level : Int) (op : Operation) : List Text :=
  if op.outputs.isEmpty then []
  else (indentation level ++ "_idx = 0") :: op.outputs.flatMap (bindingLayout level)

/-- The arguments of the call that begins the description, which `bodyLayout` lays out. -/
def descriptionArguments (op : Operation) : List Text :=
  ["self", Binding.between op.name, "self.make_name(" ++ Binding.between op.name ++ ", name)"]

/-- The statements behind the docstring. The calls that describe the operation and that make its
outputs may be too long (`callLayout`), and every other statement is one line. -/
def Pieces.bodyLayout (level : Int) (op : Operation) (p : Pieces) : List Text :=
  callLayout level "desc" "OperationDescription" op.descriptionArguments ++
    ((op.inputs.flatMap (fun a => Binding.addInput (parameter a.name) a.isList) ++
        (Binding.addControlInputs ++ (p.setters ++ p.finish))).map (Line.render level) ++
      (op.outputsLayout level ++ [op.returnLine.render level]))

end Operation

/-! ### Statements that open nothing -/

/-- The `indentation` of any level is white space. -/
theorem isBlank_indentation (level : Int) : ∀ c ∈ indentation level, isBlank c = true := by
  intro c hc
  rw [List.eq_of_mem_replicate hc]
  decide

/-- The `indentation` of any level has no line feed. -/
theorem oneLine_indentation (level : Int) : OneLine (indentation level) := by
  intro hmem
  exact absurd (List.eq_of_mem_replicate hmem) (by decide)

/-- A line that is not empty stands in `render` behind the indentation of its level and depth. -/
theorem render_of_ne_nil (level : Int) {line : Line} (h : line.text ≠ []) :
    line.render level = indentation (level + line.depth) ++ line.text := by
  rw [Line.render, indented, if_neg (by simpa using h)]

/-- A line at the level of its block stands in `render` behind the indentation of the level. -/
theorem render_statement (level : Int) {t : Text} (h : t ≠ []) :
    Line.render level { text := t } = indentation level ++ t := by
  rw [render_of_ne_nil level h]
  simp

/-- The code point at an end of a text does not satisfy `isBlank` if it is another one that does
not. -/
theorem isBlank_of_eq_some {o : Option Char} {d : Char} (hd : isBlank d = false)
    (h : o = some d) : ∀ c ∈ o, isBlank c = false := by
  intro c hc
  rw [h] at hc
  rw [← Option.some.inj hc]
  exact hd

/-- A text that is `Inert` at whatever level it stands. -/
def Idle (t : Text) : Prop := ∀ level, Inert (indentation level ++ t)

/-- A text that is `Idle` is not empty, since an empty line is blank. -/
theorem Idle.ne_nil {t : Text} (h : Idle t) : t ≠ [] := by
  rintro rfl
  exact absurd (h 0).1 (by decide)

/-- Whether a text begins with another letter than the two keywords that `isDefinition` and
`isClassLine` look for. -/
def startsOther (t : Text) : Bool := t.head?.any fun c => !isBlank c && c != 'c' && c != 'd'

/-- The first code point of a text with `startsOther` is no white space and begins neither keyword.
-/
theorem exists_of_startsOther {t : Text} (h : startsOther t = true) :
    ∃ c rest, t = c :: rest ∧ isBlank c = false ∧ c ≠ 'c' ∧ c ≠ 'd' := by
  cases t with
  | nil => cases h
  | cons c rest =>
    have hc : (isBlank c = false ∧ c ≠ 'c') ∧ c ≠ 'd' := by simpa [startsOther] using h
    exact ⟨c, rest, rfl, hc.1.1, hc.1.2, hc.2⟩

/-- A text that begins with another letter than the two keywords is `Idle`. -/
theorem idle_of_startsOther {t : Text} (h : startsOther t = true) : Idle t := by
  obtain ⟨c, rest, rfl, hblank, hc, hd⟩ := exists_of_startsOther h
  intro level
  obtain ⟨rest', hrest⟩ := exists_strip_eq (isBlank_indentation level) hblank rest
  exact settles_of_strip hrest hc hd

/-- A text that begins like the statements about the description is `Idle`: its first word is longer
than the keyword. -/
theorem idle_desc {rest : Text} (hlast : ∀ c ∈ ("desc" ++ rest).getLast?, isBlank c = false) :
    Idle ("desc" ++ rest) := by
  intro level
  have hstrip : strip (indentation level ++ ("desc" ++ rest)) = "desc" ++ rest :=
    strip_append (isBlank_indentation level) (by simp; decide) hlast
  refine ⟨?_, ?_, ?_⟩
  · rw [isBlankLine, hstrip]
    rfl
  · rw [isDefinition, hstrip]
    rfl
  · rw [isClassLine, hstrip]
    rfl

/-- The assignment to a parameter is `Idle`, since no parameter is called `class`. -/
theorem idle_assignment {name : Text} (h : IsAsciiName name) {rest : Text}
    (hlast : ∀ c ∈ (parameter name ++ (" = " ++ rest)).getLast?, isBlank c = false) :
    Idle (parameter name ++ (" = " ++ rest)) := by
  intro level
  have hindent := isBlank_indentation level
  have htarget : parameter name ≠ [] ∧ ∀ c ∈ parameter name, isBlank c = false :=
    ⟨h.parameter.1, h.parameter.isBlank_eq_false⟩
  have hclass : parameter name ≠ "class".toList := fun heq =>
    Naming.parameter_not_mem_reserved name (heq ▸ by decide)
  have hshape : parameter name ++ (" = " ++ rest) =
      parameter name ++ ([' '] ++ '=' :: (' ' :: rest)) := by simp
  rw [hshape] at hlast ⊢
  refine ⟨?_, isDefinition_assignment hindent htarget (by decide) hlast,
    isClassLine_assignment hindent htarget (by decide) hlast hclass⟩
  exact isBlankLine_eq_false (c := '=') (by simp) (by decide)

/-! ### Arguments -/

/-- A name `between` quotes passes the splitter's state, in brackets and outside. -/
theorem passes_between {name : Text} (h : IsAsciiName name) (depth : Int) :
    ArgState.Passes ⟨none, depth⟩ (Binding.between name) := by
  have hquote : '"' ∉ name := h.isIdentifier.not_mem (by decide)
  exact ArgState.passes_enclosed (by decide) rfl (ArgState.passes_literal depth hquote) rfl

/-- A name `between` quotes is an `Item`, an argument of its own. -/
theorem item_between {name : Text} (h : IsAsciiName name) : Item (Binding.between name) := by
  have hfirst : (Binding.between name).head? = some '"' := rfl
  have hlast : (Binding.between name).getLast? = some '"' := List.getLast?_concat
  have hquote : isBlank '"' = false := by decide
  exact ⟨by simp [Binding.between],
    strip_eq_self (isBlank_of_eq_some hquote hfirst) (isBlank_of_eq_some hquote hlast),
    passes_between h 0⟩

/-- The call that makes the name of an operation is an `Item`, with its comma in brackets. -/
theorem item_makeName {name : Text} (h : IsAsciiName name) :
    Item ("self.make_name(" ++ Binding.between name ++ ", name)") := by
  have hcall : ("self.make_name(" ++ Binding.between name ++ ", name)" : Text) =
      "self.make_name" ++ '(' :: ((Binding.between name ++ ", name") ++ [')']) := by
    simp
  have hfirst : ("self.make_name(" ++ Binding.between name ++ ", name)" : Text).head? =
      some 's' := rfl
  have hlast : ("self.make_name(" ++ Binding.between name ++ ", name)" : Text).getLast? =
      some ')' := by
    rw [hcall]
    simp only [← List.append_assoc, ← List.cons_append, List.getLast?_concat]
  have hstrip := strip_eq_self (isBlank_of_eq_some (by decide) hfirst)
    (isBlank_of_eq_some (by decide) hlast)
  -- The brackets of the call are closed again, and the commas between them end no argument.
  have hword : ArgState.Passes {} ("self.make_name" : Text) := by decide
  have hbehind : ArgState.Passes ⟨none, 1⟩ (", name" : Text) := by decide
  have hbody := (passes_between h 1).append hbehind
  refine ⟨by simp, hstrip, ?_⟩
  rw [hcall]
  exact hword.append (ArgState.passes_enclosed (by decide) rfl hbody rfl)

/-! ### Statements that stay on one line -/

/-- A statement that is `Idle` and is not changed by `wrapLine`, at whatever level it stands. -/
structure Quiet (t : Text) : Prop where
  idle : Idle t
  kept : OneLine t → ∀ level, wrapLine (indentation level ++ t) = [indentation level ++ t]

/-- The end of a statement behind its `indentation` is the end of the statement. -/
theorem getLast?_indentation (level : Int) {t : Text} (hne : t ≠ []) :
    (indentation level ++ t).getLast? = t.getLast? := by
  rw [List.getLast?_append, List.getLast?_eq_some_getLast hne]
  rfl

/-- A statement is `Quiet` if it begins like no keyword and does not end like an assignment of a
call. -/
theorem quiet_of_startsOther {t : Text} (h : startsOther t = true)
    (hcall : t.getLast? = some ')' → '=' ∉ t) : Quiet t := by
  have hidle := idle_of_startsOther h
  refine ⟨hidle, fun hone level => ?_⟩
  have hindent := isBlank_indentation level
  refine wrapLine_eq_self (oneLine_append.mpr ⟨oneLine_indentation level, hone⟩) ?_ ?_
  · intro _
    obtain ⟨c, rest, rfl, hblank, -, hd⟩ := exists_of_startsOther h
    rw [dropWhile_blank_append hindent (by simpa using hblank)]
    simpa using hd
  · rw [getLast?_indentation level hidle.ne_nil]
    intro hlast
    exact List.not_mem_append (fun hmem => absurd (hindent _ hmem) (by decide)) (hcall hlast)

/-- A call about the description without an equals sign is `Quiet`. -/
theorem quiet_desc {front : Text} (h : '=' ∉ front) : Quiet ("desc" ++ (front ++ [')'])) := by
  have hline : ("desc" : Text) ++ (front ++ [')']) = ("desc" ++ front) ++ [')'] :=
    (List.append_assoc ..).symm
  have hlast : ("desc" ++ (front ++ [')']) : Text).getLast? = some ')' := by
    rw [hline, List.getLast?_concat]
  have hequals : '=' ∉ ("desc" ++ (front ++ [')']) : Text) := by simp [h]
  have hidle : Idle ("desc" ++ (front ++ [')'])) :=
    idle_desc (isBlank_of_eq_some (by decide) hlast)
  refine ⟨hidle, fun hone level => ?_⟩
  have hindent := isBlank_indentation level
  -- The two ways to wrap a line are by a colon at its end and by an equals sign in it.
  refine wrapLine_eq_self (oneLine_append.mpr ⟨oneLine_indentation level, hone⟩) ?_ ?_ <;>
    rw [getLast?_indentation level (by simp), hlast]
  · intro hcolon
    exact absurd hcolon (by decide)
  · intro _
    exact List.not_mem_append (fun hmem => absurd (hindent _ hmem) (by decide)) hequals

/-- The assignment of a call with one argument or with none is `Quiet`. -/
theorem quiet_call {t : Text} (target callee arguments : Text)
    (hline : t = target ++ (" = " ++ (callee ++ '(' :: (arguments ++ [')']))))
    (hfirst : startsOther target = true) (htarget : ∀ c ∈ target, isBlank c = false ∧ c ≠ '=')
    (hcallee : callee ≠ [] ∧ ∀ c ∈ callee, isBlank c = false ∧ c ≠ '(')
    (harguments : (splitArguments arguments).length ≤ 1) : Quiet t := by
  have hne : target ≠ [] := (idle_of_startsOther hfirst).ne_nil
  have hstarts : startsOther t = true := by
    obtain ⟨c, rest, rfl⟩ := List.exists_cons_of_ne_nil hne
    rw [hline]
    exact hfirst
  refine ⟨idle_of_startsOther hstarts, fun hone level => ?_⟩
  subst hline
  rw [wrapLine_call (isBlank_indentation level) hne htarget hcallee.1 hcallee.2
    (oneLine_append.mpr ⟨oneLine_indentation level, hone⟩), if_neg (by omega)]

/-- The assignment of a list to a parameter is `Quiet`. -/
theorem quiet_list {name : Text} (h : IsAsciiName name) (front : Text) :
    Quiet (parameter name ++ (" = " ++ (front ++ [']']))) := by
  have hline : parameter name ++ (" = " ++ (front ++ [']'])) =
      (parameter name ++ (" = " ++ front)) ++ [']'] := by simp
  have hlast : (parameter name ++ (" = " ++ (front ++ [']']))).getLast? = some ']' := by
    rw [hline, List.getLast?_concat]
  have hidle : Idle (parameter name ++ (" = " ++ (front ++ [']']))) :=
    idle_assignment h (isBlank_of_eq_some (by decide) hlast)
  refine ⟨hidle, fun hone level => ?_⟩
  refine wrapLine_eq_self (oneLine_append.mpr ⟨oneLine_indentation level, hone⟩) ?_ ?_ <;>
    rw [getLast?_indentation level hidle.ne_nil, hlast] <;> intro heq <;>
    exact absurd heq (by decide)

/-! ### The statements of a method -/

/-- The statement that adds an input is `Quiet`. -/
theorem quiet_addInput {name : Text} (h : IsAsciiName name) (isList : Bool) :
    ∀ line ∈ Binding.addInput (parameter name) isList, Quiet line.text := by
  have hequals : '=' ∉ parameter name := h.parameter.isIdentifier.not_mem (by decide)
  refine List.forall_mem_singleton.mpr ?_
  cases isList with
  | true =>
    have hfree : '=' ∉ (".add_inputs(" : Text) ++ parameter name :=
      List.not_mem_append (by decide) hequals
    simpa using quiet_desc hfree
  | false =>
    have hfree : '=' ∉ (".add_input(" : Text) ++ parameter name :=
      List.not_mem_append (by decide) hequals
    simpa using quiet_desc hfree

/-- The loop over control inputs is `Quiet`, line by line. -/
theorem quiet_addControlInputs : ∀ line ∈ Binding.addControlInputs, Quiet line.text := by
  have hloop : Quiet "for control in self.control_dependencies:" :=
    quiet_of_startsOther (by decide) (by decide)
  have hfree : '=' ∉ (".add_control_input(control" : Text) := by decide
  have hline : ("desc.add_control_input(control)" : Text) =
      "desc" ++ (".add_control_input(control" ++ [')']) := by decide
  have hcall : Quiet "desc.add_control_input(control)" := hline ▸ quiet_desc hfree
  exact List.forall_mem_cons.mpr ⟨hloop, List.forall_mem_singleton.mpr hcall⟩

/-- The guard in front of the statement that sets an attribute is `Quiet`. -/
theorem quiet_guards {a : Attribute} (h : IsAsciiName a.name) :
    ∀ line ∈ guards a, Quiet line.text := by
  have hequals : '=' ∉ parameter a.name := h.parameter.isIdentifier.not_mem (by decide)
  intro line hline
  rw [guards] at hline
  split at hline
  · rw [List.mem_singleton.mp hline]
    have hfree : '=' ∉ ("if " : Text) ++ parameter a.name ++ " is not None:" :=
      List.not_mem_append (List.not_mem_append (by decide) hequals) (by decide)
    exact quiet_of_startsOther rfl fun _ => hfree
  · cases hline

/-- A value `coerced` by a constructor holds no equals sign if it holds none itself. -/
theorem equals_not_mem_coerced (tag : Text) {expr : Text} (h : '=' ∉ expr) :
    '=' ∉ Binding.coerced tag expr := by
  rw [Binding.coerced]
  split
  · next constructor hconstructor =>
    rw [TypeTag.constructor?] at hconstructor
    split at hconstructor
    · cases hconstructor
    · obtain ⟨e, -, he⟩ := Option.bind_eq_some_iff.mp hconstructor
      have hfree : '=' ∉ constructor := by
        cases e <;> cases he <;> decide
      simp [hfree, h]
  · exact h

/-- The statement that sets an attribute is `Quiet`. -/
theorem quiet_setting {b : Binding} {a : Attribute} (h : IsAsciiName a.name)
    (hfit : Operation.Annotated TypeTable.standard a) : Quiet (setting b a).text := by
  have hvalue := equals_not_mem_coerced a.tag (h.parameter.isIdentifier.not_mem (by decide))
  have hname : '=' ∉ a.name := h.isIdentifier.not_mem (by decide)
  -- The setter is named for the element, and for a list of them.
  obtain ⟨suffix, hsetter, hsuffix⟩ : ∃ suffix, b.setterName a.tag = "desc" ++ suffix ∧
      '=' ∉ suffix := by
    obtain ⟨e, htag, -⟩ := exists_element hfit
    have hshared : '=' ∉ (".set_attr" : Text) := by decide
    cases b with
    | typed =>
      have hall : ∀ l : Bool, '=' ∉ (".set_attr" : Text) ++
          ('_' :: e.tag ++ if l then ("_list" : Text) else []) := by
        cases e <;> decide
      refine ⟨".set_attr" ++ TypeTag.setterSuffix a.tag, rfl, ?_⟩
      rw [TypeTag.setterSuffix, htag]
      exact hall _
    | graph => exact ⟨".set_attr", rfl, hshared⟩
    | base => exact ⟨".set_attr", rfl, hshared⟩
  have hfree : '=' ∉ suffix ++ ('(' :: (Binding.between a.name ++ ", " ++
      Binding.coerced a.tag (parameter a.name))) := by
    simp [hsuffix, Binding.between, hname, hvalue]
  have hquiet := quiet_desc hfree
  show Quiet (settingCall (b.setterName a.tag) a.name (Binding.coerced a.tag (parameter a.name)))
  rw [settingCall, hsetter]
  simpa using hquiet

/-- The statements that finish an operation are `Quiet`, under every binding. -/
theorem quiet_finishOperation {b : Binding} {operation : Text} {block : List Line}
    (hop : IsAsciiName operation) (h : b.finishOperation operation = .ok block) :
    ∀ line ∈ block, Quiet line.text := by
  have hraise : Quiet (Binding.raiseCreateError operation).text := by
    -- The name of the operation is the only part that is not fixed, and it holds no equals sign.
    have hequals : '=' ∉ operation := hop.isIdentifier.not_mem (by decide)
    have hfree : '=' ∉ ("raise OpCreateError(" : Text) ++ Binding.between operation ++
        ", status.message)" := by
      simp [Binding.between, hequals]
    exact quiet_of_startsOther rfl fun _ => hfree
  have hstatus : Quiet "status = Status()" :=
    quiet_call "status" "Status" "" (by decide) rfl (by decide) (by decide) (by decide)
  have hfinish : Quiet "op = desc.finish_operation(status)" :=
    quiet_call "op" "desc.finish_operation" "status" (by decide) rfl (by decide) (by decide)
      (by decide)
  have hfailed : Quiet "if not status.ok:" := quiet_of_startsOther rfl (by decide)
  have hwith : Quiet "with Status() as status:" := quiet_of_startsOther rfl (by decide)
  have herror : Quiet "if status.error:" := quiet_of_startsOther rfl (by decide)
  refine Binding.forall_finishOperation ?_ hraise h
  simp only [finishingTexts, List.forall_mem_cons]
  exact ⟨hstatus, hfinish, hfailed, hwith, herror, List.forall_mem_nil _⟩

/-- The statements that bind a list of outputs, and those that count, are `Quiet`. -/
theorem quiet_bindOutput {a : Argument} (h : IsAsciiName a.name) (hlist : a.isList = true) :
    ∀ line ∈ Operation.bindOutput a, Quiet line.text := by
  -- The name between quotes is a single argument, so the call stays on one line.
  have hone : (splitArguments (Binding.between a.name)).length ≤ 1 := by
    have hitems := splitArguments_items (List.forall_mem_singleton.mpr (item_between h))
    exact Nat.le_of_eq (congrArg List.length hitems)
  have hcount : Quiet ("_n = op.get_output_list_length(" ++ Binding.between a.name ++ [')']) :=
    quiet_call "_n" "op.get_output_list_length" (Binding.between a.name) (by simp) rfl
      (by decide) (by decide) hone
  have hcollect : (" = [Output(op, _idx + i) for i in range(_n)]" : Text) =
      " = " ++ ("[Output(op, _idx + i) for i in range(_n)" ++ [']']) := by decide +kernel
  have hvalues : Quiet (parameter a.name ++ " = [Output(op, _idx + i) for i in range(_n)]") :=
    hcollect ▸ quiet_list h _
  have hnext : Quiet "_idx += _n" := quiet_of_startsOther rfl (by decide)
  rw [Operation.bindOutput, if_pos hlist]
  simp only [List.forall_mem_cons]
  exact ⟨hcount, hvalues, hnext, List.forall_mem_nil _⟩

/-- The statement that returns the result is `Quiet`. -/
theorem quiet_returnLine {op : Operation} (hnames : op.AsciiNames) : Quiet op.returnLine.text := by
  have hparameter : ∀ a ∈ op.outputs, '=' ∉ parameter a.name := fun a ha =>
    (hnames.outputs a ha).parameter.isIdentifier.not_mem (by decide)
  rw [Operation.returnLine]
  split
  · exact quiet_of_startsOther rfl (by decide)
  · next a hout =>
    have hfree : '=' ∉ ("return " : Text) ++ parameter a.name :=
      List.not_mem_append (by decide) (hparameter a (by simp [hout]))
    exact quiet_of_startsOther rfl fun _ => hfree
  -- The return of a tuple is a call that assigns nothing, as none of its names holds an equals
  -- sign.
  · have hname : '=' ∉ op.name := hnames.name.isIdentifier.not_mem (by decide)
    have hvalues : '=' ∉ join [',', ' '] (op.outputs.map fun a => parameter a.name) := by
      intro hmem
      rcases mem_join hmem with hmem | ⟨value, hvalue, hmem⟩
      · exact absurd hmem (by decide)
      · obtain ⟨a, ha, rfl⟩ := List.mem_map.mp hvalue
        exact hparameter a ha hmem
    refine quiet_of_startsOther rfl fun _ => ?_
    simp [Operation.outputsClass, hname, hvalues]

/-! ### Blocks of statements -/

/-- A line of code is wrapped by `formatLine` if it is too long, and stays otherwise. -/
theorem formatLine_code (t : Text) :
    formatLine ⟨t, false⟩ = if t.length ≤ lineLimit then [t] else wrapLine t := by
  by_cases hshort : t.length ≤ lineLimit
  · simp [formatLine, hshort, Nat.not_lt.mpr hshort]
  · simp [formatLine, hshort, Nat.lt_of_not_le hshort]

/-- The lines of a block are `Inert` at any level, and are laid out in the given way there by
`formatLine`. -/
structure LaidOutAs (block : List Line) (layout : Int → List Text) : Prop where
  inert : ∀ level, ∀ line ∈ block, Inert (line.render level)
  formatted : ∀ level,
    block.flatMap (fun line => formatLine ⟨line.render level, false⟩) = layout level

/-- Two blocks are `LaidOutAs` one behind the other, each in its own way. -/
theorem LaidOutAs.append {xs ys : List Line} {xlayout ylayout : Int → List Text}
    (hx : LaidOutAs xs xlayout) (hy : LaidOutAs ys ylayout) :
    LaidOutAs (xs ++ ys) (fun level => xlayout level ++ ylayout level) where
  inert := fun level => List.forall_mem_append.mpr ⟨hx.inert level, hy.inert level⟩
  formatted := fun level => by
    rw [List.flatMap_append, hx.formatted, hy.formatted]

/-- Blocks made for several things are `LaidOutAs` they are one by one, one behind the other. -/
theorem laidOutAs_flatMap {α : Type} {f : α → List Line} {layout : Int → α → List Text}
    {xs : List α} (h : ∀ x ∈ xs, LaidOutAs (f x) (layout · x)) :
    LaidOutAs (xs.flatMap f) (fun level => xs.flatMap (layout level)) := by
  induction xs with
  | nil =>
    refine ⟨fun _ line hline => ?_, fun _ => rfl⟩
    cases hline
  | cons x xs ih =>
    obtain ⟨hfirst, hrest⟩ := List.forall_mem_cons.mp h
    exact hfirst.append (ih hrest)

/-- Statements that are `Quiet` stay as they are. -/
theorem laidOutAs_of_quiet {block : List Line} (hquiet : ∀ line ∈ block, Quiet line.text)
    (hone : OneLineEach block) :
    LaidOutAs block (fun level => block.map (Line.render level)) where
  inert := fun level line hline => by
    have hidle := (hquiet line hline).idle
    rw [render_of_ne_nil level hidle.ne_nil]
    exact hidle _
  formatted := fun level => by
    have hsame : ∀ line ∈ block, formatLine ⟨line.render level, false⟩ = [line.render level] := by
      intro line hline
      have hline' := hquiet line hline
      rw [render_of_ne_nil level hline'.idle.ne_nil, formatLine_code,
        hline'.kept (hone line hline), ite_self]
    rw [List.flatMap_congr hsame, List.map_eq_flatMap]

/-- A single statement that is `Quiet` stays as it is. -/
theorem laidOutAs_statement {t : Text} (hquiet : Quiet t) (hone : OneLine t) :
    LaidOutAs [{ text := t }] (fun level => [indentation level ++ t]) := by
  have hblock := laidOutAs_of_quiet (List.forall_mem_singleton.mpr hquiet)
    (oneLineEach_singleton hone)
  simpa [render_statement _ hquiet.idle.ne_nil] using hblock

/-- An assignment of a call with several arguments is laid out as `callLayout` has it. -/
theorem laidOutAs_call {t : Text} (target callee : Text) (args : List Text)
    (hline : t = target ++ (" = " ++ (callee ++ '(' :: (join ", " args ++ [')']))))
    (hidle : Idle t) (hone : OneLine t)
    (htarget : target ≠ [] ∧ ∀ c ∈ target, isBlank c = false ∧ c ≠ '=')
    (hcallee : callee ≠ [] ∧ ∀ c ∈ callee, isBlank c = false ∧ c ≠ '(')
    (hargs : ∀ a ∈ args, Item a) (hseveral : 1 < args.length) :
    LaidOutAs [{ text := t }] (callLayout · target callee args) := by
  have hrender := fun level => render_statement level hidle.ne_nil
  refine ⟨fun level => List.forall_mem_singleton.mpr ?_, fun level => ?_⟩
  · rw [hrender]
    exact hidle level
  · subst hline
    have hwrap := wrapLine_call (isBlank_indentation level) htarget.1 htarget.2 hcallee.1
      hcallee.2 (oneLine_append.mpr ⟨oneLine_indentation level, hone⟩)
    rw [splitArguments_items hargs, if_pos hseveral] at hwrap
    rw [List.flatMap_singleton, hrender, formatLine_code, hwrap]
    rfl

/-! ### The statements that are calls -/

/-- The statement of `newDescription` is laid out as a call with three arguments. -/
theorem laidOutAs_newDescription {op : Operation} (h : IsAsciiName op.name) :
    LaidOutAs (Binding.newDescription op.name)
      (callLayout · "desc" "OperationDescription" op.descriptionArguments) := by
  -- The line is written as an assignment of a call, whose three arguments are items.
  have hline : ("desc = OperationDescription(self, " ++ Binding.between op.name ++
      ", self.make_name(" ++ Binding.between op.name ++ ", name))" : Text) =
        "desc" ++ (" = " ++ ("OperationDescription" ++
          '(' :: (join ", " op.descriptionArguments ++ [')']))) := by
    simp [Operation.descriptionArguments, join]
  have hone : OneLineEach (Binding.newDescription op.name) :=
    oneLineEach_newDescription h.isIdentifier.plain.oneLine
  have hidle : Idle ("desc = OperationDescription(self, " ++ Binding.between op.name ++
      ", self.make_name(" ++ Binding.between op.name ++ ", name))") := by
    rw [hline]
    refine idle_desc (isBlank_of_eq_some (by decide : isBlank ')' = false) ?_)
    simp only [← List.append_assoc, ← List.cons_append, List.getLast?_concat]
  refine laidOutAs_call "desc" "OperationDescription" op.descriptionArguments hline hidle
    (hone _ List.mem_cons_self) (by decide) (by decide) ?_ (by decide : 1 < 3)
  rw [Operation.descriptionArguments, List.forall_mem_cons, List.forall_mem_cons,
    List.forall_mem_singleton]
  exact ⟨by decide, item_between h, item_makeName h⟩

namespace Operation

/-- The statements that bind the variable of an output are laid out as `bindingLayout` has them. -/
theorem laidOutAs_bindOutput {a : Argument} (h : IsAsciiName a.name)
    (hone : OneLineEach (bindOutput a)) : LaidOutAs (bindOutput a) (bindingLayout · a) := by
  cases hlist : a.isList with
  | true =>
    -- A list of outputs is no call, and the one that counts them has a single argument.
    have hquiet := laidOutAs_of_quiet (quiet_bindOutput h hlist) hone
    simpa [bindingLayout, hlist] using hquiet
  | false =>
    have hline : parameter a.name ++ " = Output(op, _idx)" =
        parameter a.name ++ (" = " ++ ("Output" ++ '(' :: (join ", " ["op", "_idx"] ++ [')']))) :=
      congrArg (parameter a.name ++ ·) (by decide)
    have hblock : bindOutput a =
        [{ text := parameter a.name ++ " = Output(op, _idx)" }] ++ [{ text := "_idx += 1" }] := by
      rw [bindOutput, if_neg (by simp [hlist])]
      rfl
    have hidle : Idle (parameter a.name ++ " = Output(op, _idx)") := by
      rw [hline]
      refine idle_assignment h (isBlank_of_eq_some (by decide : isBlank ')' = false) ?_)
      simp only [← List.append_assoc, ← List.cons_append, List.getLast?_concat]
    have hequals : '=' ∉ parameter a.name := h.parameter.isIdentifier.not_mem (by decide)
    have htarget : ∀ c ∈ parameter a.name, isBlank c = false ∧ c ≠ '=' := by
      intro c hc
      refine ⟨h.parameter.isBlank_eq_false c hc, ?_⟩
      rintro rfl
      exact hequals hc
    have hcounter : LaidOutAs [{ text := "_idx += 1" }] fun level =>
        [indentation level ++ "_idx += 1"] :=
      laidOutAs_statement (quiet_of_startsOther rfl (by decide)) (by decide)
    have hassigned := laidOutAs_call (parameter a.name) "Output" ["op", "_idx"] hline hidle
      (oneLine_append.mpr ⟨h.parameter.isIdentifier.plain.oneLine, by decide⟩)
      ⟨h.parameter.1, htarget⟩ (by decide) (by decide) (by decide)
    rw [hblock]
    simpa [bindingLayout, hlist] using hassigned.append hcounter

/-- The statements that bind the outputs are laid out as `outputsLayout` has them. -/
theorem laidOutAs_outputsBlock {op : Operation} (hnames : op.AsciiNames) :
    LaidOutAs op.outputsBlock (fun level => op.outputsLayout level) := by
  by_cases hempty : op.outputs.isEmpty
  · have hblock : op.outputsBlock = [] := if_pos hempty
    rw [hblock]
    refine ⟨fun _ line hline => ?_, fun level => ?_⟩
    · cases hline
    · exact (if_pos hempty).symm
  -- The index is set first, and then each output is laid out by itself.
  · have hblock : op.outputsBlock =
        [{ text := "_idx = 0" }] ++ op.outputs.flatMap bindOutput := if_neg hempty
    have hone := oneLineEach_outputsBlock hnames.wellNamed.oneLineNames
    rw [hblock] at hone ⊢
    have hstart : LaidOutAs [{ text := "_idx = 0" }] fun level =>
        [indentation level ++ "_idx = 0"] :=
      laidOutAs_statement (quiet_of_startsOther rfl (by decide)) (by decide)
    have hvalues : LaidOutAs (op.outputs.flatMap bindOutput) fun level =>
        op.outputs.flatMap (bindingLayout level) := by
      refine laidOutAs_flatMap fun a ha => ?_
      exact laidOutAs_bindOutput (hnames.outputs a ha) fun line hline =>
        (oneLineEach_append.mp hone).2 line (List.mem_flatMap.mpr ⟨a, ha, hline⟩)
    simpa [outputsLayout, hempty] using hstart.append hvalues

/-- The statements behind the docstring are laid out as `bodyLayout` has them. -/
theorem laidOutAs_body {b : Binding} {op : Operation} {doc : Documentation} {p : Pieces}
    (hnames : op.AsciiNames) (hp : op.pieces TypeTable.standard b doc = .ok p) :
    LaidOutAs (p.body op) (fun level => p.bodyLayout level op) := by
  obtain ⟨hparams, -, hsetters, hfinish⟩ := (pieces_eq_ok_iff _ _ _ _ _).mp hp
  have hfit := annotated_of_signatureParams hparams
  have hb : b ≠ .base := by
    rintro rfl
    cases hfinish
  have hsetters := Except.ok.inj (hsetters.symm.trans (settersBlock_eq_ok hb hfit))
  -- Between the description and the outputs no statement is ever wrapped.
  have hinputs : ∀ line ∈ op.inputs.flatMap fun a =>
      Binding.addInput (parameter a.name) a.isList, Quiet line.text := by
    intro line hline
    obtain ⟨a, ha, hline⟩ := List.mem_flatMap.mp hline
    exact quiet_addInput (hnames.inputs a ha) a.isList line hline
  have hset : ∀ line ∈ p.setters, Quiet line.text := by
    intro line hline
    rw [hsetters] at hline
    obtain ⟨a, ha, hline⟩ := List.mem_flatMap.mp hline
    have hname := hnames.attributes a ((mem_parameterAttributes_iff op a).mp ha).1
    rcases List.mem_append.mp hline with hline | hline
    · exact quiet_guards hname line hline
    · rw [List.mem_singleton.mp hline]
      exact quiet_setting hname (hfit a ha)
  have hmiddle : ∀ line ∈ op.inputs.flatMap (fun a =>
      Binding.addInput (parameter a.name) a.isList) ++
        (Binding.addControlInputs ++ (p.setters ++ p.finish)), Quiet line.text := by
    simp only [List.forall_mem_append]
    exact ⟨hinputs, quiet_addControlInputs, hset, quiet_finishOperation hnames.name hfinish⟩
  have hbody : p.body op = Binding.newDescription op.name ++ ((op.inputs.flatMap (fun a =>
      Binding.addInput (parameter a.name) a.isList) ++
        (Binding.addControlInputs ++ (p.setters ++ p.finish))) ++
          (op.outputsBlock ++ [op.returnLine])) := by
    simp [Pieces.body]
  have hone := oneLineEach_body hnames.wellNamed.oneLineNames hp
  rw [hbody] at hone ⊢
  obtain ⟨-, hone⟩ := oneLineEach_append.mp hone
  obtain ⟨hmiddleOne, hone⟩ := oneLineEach_append.mp hone
  obtain ⟨-, hreturn⟩ := oneLineEach_append.mp hone
  have hreturnQuiet : ∀ line ∈ [op.returnLine], Quiet line.text :=
    List.forall_mem_singleton.mpr (quiet_returnLine hnames)
  exact (laidOutAs_newDescription hnames.name).append
    ((laidOutAs_of_quiet hmiddle hmiddleOne).append
      ((laidOutAs_outputsBlock hnames).append (laidOutAs_of_quiet hreturnQuiet hreturn)))

end Operation

end TypedOps
