import TypedOps.Proofs.Emit.Bindings
import TypedOps.Proofs.Script.Syntax

/-!
# `TypedOps.Proofs.Emit.Uses`: the variables that a body uses

`givenUses` reads off the statements of a body which variable is handed over as an input, alone or
as a list, and which one an attribute is set to, below a guard or not. `namedBy` reads off the
variable that names the operation. Both look at the text of the statements: a statement with a use
calls a method of the description, and one whose first word is another is aside (`Line.Aside`).

* `UsedAs`: a block makes the given uses wherever it stands. Blocks in a row make those of each.
* `Operation.usedAs_body`: under a binding that sets every attribute, a body makes the uses of
  `Operation.expectedUses`: every input, then the required attributes, then the optional ones.
* `Operation.namedBy_body`: it names the operation once.
-/

set_option autoImplicit false

namespace TypedOps

open Naming (parameter)
open Script (closed?)
open Text

/-! ### The variables that a body uses -/

/-- What a statement hands a variable over for, read off its text by `use?`. -/
inductive Use where
  /-- The statement adds the variable as an input, or as a list of inputs. -/
  | input (name : Text) (many : Bool)
  /-- The statement sets an attribute to the variable, below a guard or not. -/
  | setting (key name : Text) (guarded : Bool)
deriving DecidableEq, Repr

/-- The variable that a `Use` hands over. -/
def Use.name : Use → Text
  | .input name _ => name
  | .setting _ name _ => name

/-- The variable in the text of a value: `expr` itself, or what a constructor is applied to. -/
def valueName? (expr : Text) : Option Text :=
  match cut '(' expr with
  | (name, none) => some name
  | (_, some rest) => closed? ')' rest

/-- The method of the description that a statement calls, and the text between the brackets, up to
the one that `closed?` finds at the end. -/
def descriptionCall? (t : Text) : Option (Text × Text) :=
  (afterStart? "desc." t).bind fun call =>
    match cut '(' call with
    | (method, some rest) => (closed? ')' rest).map fun arguments => (method, arguments)
    | (_, none) => none

/-- The attribute that a setter is called with, and the variable that it is set to, the latter by
`valueName?`. -/
def settingArguments? (arguments : Text) : Option (Text × Text) :=
  (afterStart? ['"'] arguments).bind fun rest =>
    match cut '"' rest with
    | (key, some rest) => ((afterStart? ", " rest).bind valueName?).map fun name => (key, name)
    | (_, none) => none

/-- The guard that a statement stands below if it runs only where the variable `name` has a value.
-/
def guardText (name : Text) : Text := "if " ++ name ++ " is not None:"

/-- Whether a line stands right below the `guardText` of a variable, one level further in. -/
def guardedBy (before : Option Line) (line : Line) (name : Text) : Bool :=
  before.any fun g => g.text == guardText name && g.depth + 1 == line.depth

/-- The use that a statement makes of a variable, given the line before. A setter is told from an
input by the method in the `descriptionCall?`. -/
def use? (before : Option Line) (line : Line) : Option Use :=
  (descriptionCall? line.text).bind fun (method, arguments) =>
    if Text.startsWith method "set_attr" then
      (settingArguments? arguments).map fun (key, name) =>
        .setting key name (guardedBy before line name)
    else if method = "add_input" then some (.input arguments false)
    else if method = "add_inputs" then some (.input arguments true)
    else none

/-- The uses that lines make of variables, given the line before them, each read by `use?`. -/
def usesFrom (before : Option Line) : List Line → List Use
  | [] => []
  | line :: rest => (use? before line).toList ++ usesFrom (some line) rest

/-- The uses that a body makes of what the caller gives, in order. These are the `usesFrom` its
first line. -/
def givenUses (body : List Line) : List Use := usesFrom none body

/-- The variable that names the operation, where a statement begins its description. It stands
behind the operation's name, between brackets that `closed?` takes off. -/
def namingVariable? (t : Text) : Option Text :=
  (afterStart? "desc = OperationDescription(self, \"" t).bind fun rest =>
    match cut '"' rest with
    | (operation, some rest) =>
      (afterStart? (", self.make_name(\"" ++ operation ++ "\", ") rest).bind fun rest =>
        (closed? ')' rest).bind (closed? ')')
    | (_, none) => none

/-- The variables that name an operation in a body, by `namingVariable?`. -/
def namedBy (body : List Line) : List Text := body.filterMap fun line => namingVariable? line.text

/-! ### Statements without a use -/

/-- The first word of a statement, up to a space or a full stop. It tells whether the statement is
`Line.Aside`. -/
def firstWord (t : Text) : Text := t.takeWhile fun c => c != ' ' && c != '.'

/-- The `firstWord` of a text ends at a space or a full stop, whatever stands behind. -/
theorem firstWord_append {word : Text} {c : Char} (hword : ' ' ∉ word ∧ '.' ∉ word)
    (hc : c = ' ' ∨ c = '.') (rest : Text) : firstWord (word ++ c :: rest) = word := by
  have hall : ∀ d ∈ word, (d != ' ' && d != '.') = true := by
    intro d hd
    have hspace : d ≠ ' ' := fun heq => hword.1 (heq ▸ hd)
    have hstop : d ≠ '.' := fun heq => hword.2 (heq ▸ hd)
    simp [hspace, hstop]
  rw [firstWord, List.takeWhile_append_of_pos hall]
  rcases hc with rfl | rfl <;> simp

/-- A statement that leaves the description alone, as its `firstWord` shows. -/
def Line.Aside (line : Line) : Prop := firstWord line.text ≠ "desc"

/-- A statement that is `Aside` makes no use of a variable. -/
theorem use?_of_aside {line : Line} (h : line.Aside) (before : Option Line) :
    use? before line = none := by
  rw [use?, descriptionCall?]
  cases hcall : afterStart? "desc." line.text with
  | none => rfl
  | some call =>
    refine absurd ?_ h
    have hstop : ("desc." : Text) = "desc" ++ ['.'] := by decide
    rw [eq_append_of_afterStart? hcall, hstop, List.append_assoc]
    exact firstWord_append (by decide) (.inr rfl) call

/-- A statement that is `Aside` names no operation. -/
theorem namingVariable?_of_aside {line : Line} (h : line.Aside) :
    namingVariable? line.text = none := by
  rw [namingVariable?]
  cases hrest : afterStart? "desc = OperationDescription(self, \"" line.text with
  | none => rfl
  | some rest =>
    refine absurd ?_ h
    have hspace : ("desc = OperationDescription(self, \"" : Text) =
        "desc" ++ (' ' :: "= OperationDescription(self, \"") := by decide
    rw [eq_append_of_afterStart? hrest, hspace, List.append_assoc]
    exact firstWord_append (by decide) (.inl rfl) _

/-- A statement is `Aside` where its first word is another than that of the description. -/
theorem Line.aside_of_word {line : Line} (word rest : Text)
    (htext : line.text = word ++ ' ' :: rest) (hword : ' ' ∉ word ∧ '.' ∉ word)
    (hne : word ≠ "desc") : line.Aside := by
  rw [Line.Aside, htext, firstWord_append hword (.inl rfl)]
  exact hne

/-- No variable is called as the description is, so a statement that begins with one is `Aside`. -/
theorem Line.aside_of_variable {line : Line} {name rest : Text} (hname : IsIdentifier name)
    (hline : line.text = parameter name ++ ' ' :: rest) : line.Aside := by
  have hidentifier := Naming.isIdentifier_parameter hname
  refine Line.aside_of_word _ _ hline
    ⟨hidentifier.not_mem (by decide), hidentifier.not_mem (by decide)⟩ fun heq => ?_
  have hreserved : "desc".toList ∈ Naming.reservedNames := by decide +kernel
  exact Naming.parameter_not_mem_reserved name (heq ▸ hreserved)

/-- The guard of an optional attribute is `Aside`. -/
theorem aside_guards (a : Attribute) : ∀ line ∈ guards a, line.Aside := by
  intro line hline
  rw [guards] at hline
  split at hline
  · rw [List.mem_singleton.mp hline]
    exact Line.aside_of_word "if" (parameter a.name ++ " is not None:") rfl (by decide) (by decide)
  · cases hline

/-- The statements that finish the operation are `Aside`, under every binding. -/
theorem aside_finishOperation {b : Binding} {operation : Text} {finish : List Line}
    (h : b.finishOperation operation = .ok finish) : ∀ line ∈ finish, line.Aside := by
  have hraise : (Binding.raiseCreateError operation).Aside :=
    Line.aside_of_word "raise"
      ("OpCreateError(" ++ Binding.between operation ++ ", status.message)")
      rfl (by decide) (by decide)
  have htexts : ∀ t ∈ finishingTexts, firstWord t ≠ "desc" := by
    rw [finishingTexts]
    repeat rw [String.toList_ofList]
    decide
  exact Binding.forall_finishOperation (P := (firstWord · ≠ "desc")) htexts hraise h

namespace Operation

/-- The statements that bind the outputs are `Aside`. -/
theorem aside_outputsBlock {op : Operation} (houtputs : ∀ a ∈ op.outputs, IsIdentifier a.name) :
    ∀ line ∈ op.outputsBlock, line.Aside := by
  refine forall_outputsBlock (fun rest => ?_) fun a ha rest =>
    Line.aside_of_variable (houtputs a ha) rfl
  have hfirst : (firstWord ('_' :: rest)).head? = some '_' := by simp [firstWord]
  intro heq
  have hother : "desc".toList.head? ≠ some '_' := by decide
  exact hother (heq ▸ hfirst)

/-- The statement that returns the result is `Aside`. -/
theorem aside_returnLine (op : Operation) : op.returnLine.Aside := by
  have hreturn : ∀ rest, Line.Aside { text := "return " ++ rest } := fun rest =>
    Line.aside_of_word "return" rest rfl (by decide) (by decide)
  rw [returnLine]
  split
  · exact hreturn "op"
  · exact hreturn _
  · next outputs _ _ =>
    exact hreturn ("self." ++ op.outputsClass ++ '(' ::
      Text.join ", " (outputs.map fun a => parameter a.name) ++ [')'])

end Operation

/-! ### Statements with a use -/

/-- A block makes the given uses, whatever stands in front of it and behind it, so that `usesFrom`
goes through blocks one by one. -/
def UsedAs (block : List Line) (uses : List Use) : Prop :=
  ∀ before rest, ∃ last, usesFrom before (block ++ rest) = uses ++ usesFrom last rest

/-- The empty block is `UsedAs` nothing. -/
theorem usedAs_nil : UsedAs [] [] := fun before _ => ⟨before, rfl⟩

/-- Two blocks in a row are `UsedAs` the uses of both, in order. -/
theorem UsedAs.append {xs ys : List Line} {us vs : List Use} (hx : UsedAs xs us)
    (hy : UsedAs ys vs) : UsedAs (xs ++ ys) (us ++ vs) := by
  intro before rest
  obtain ⟨last, hlast⟩ := hx before (ys ++ rest)
  obtain ⟨last', hlast'⟩ := hy last rest
  refine ⟨last', ?_⟩
  rw [List.append_assoc, hlast, hlast', List.append_assoc]

/-- A statement whose `use?` does not depend on the line before makes this one use as a block. -/
theorem usedAs_singleton {line : Line} (u? : Option Use) (h : ∀ before, use? before line = u?) :
    UsedAs [line] u?.toList := by
  intro before rest
  exact ⟨some line, by rw [List.singleton_append, usesFrom, h before]⟩

/-- Statements that leave the description `Aside` make no use. -/
theorem usedAs_of_aside {block : List Line} (h : ∀ line ∈ block, line.Aside) : UsedAs block [] := by
  induction block with
  | nil => exact usedAs_nil
  | cons line block ih =>
    have hfirst := usedAs_singleton none (use?_of_aside (h line List.mem_cons_self))
    exact hfirst.append (ih fun l hl => h l (List.mem_cons_of_mem line hl))

/-- The `givenUses` of a body are those that it makes as a block. -/
theorem UsedAs.givenUses_eq {body : List Line} {uses : List Use} (h : UsedAs body uses) :
    givenUses body = uses := by
  obtain ⟨last, hlast⟩ := h none []
  rw [List.append_nil] at hlast
  rw [givenUses, hlast]
  exact List.append_nil _

/-- A call of a method of the description is read back by `descriptionCall?`, with its method and
its arguments. -/
theorem descriptionCall?_append {method : Text} (h : '(' ∉ method) (arguments : Text) :
    descriptionCall? ("desc." ++ (method ++ '(' :: (arguments ++ [')']))) =
      some (method, arguments) := by
  rw [descriptionCall?, afterStart?_append, Option.bind_some, cut_append_cons h]
  show (closed? ')' (arguments ++ [')'])).map _ = _
  rw [Script.closed?_append]
  rfl

/-- A call of a method of the description names no operation, so `namingVariable?` finds none. -/
theorem namingVariable?_call (call : Text) : namingVariable? ("desc." ++ call) = none := by
  have hstop : ("desc." : Text) = ['d', 'e', 's', 'c', '.'] := by decide
  have hspace : ("desc = OperationDescription(self, \"" : Text) =
      ['d', 'e', 's', 'c', ' '] ++ "= OperationDescription(self, \"" := by decide
  have hstart : afterStart? "desc = OperationDescription(self, \"" ("desc." ++ call) = none := by
    rw [hstop, hspace]
    rfl
  rw [namingVariable?, hstart]
  rfl

/-- The statement of `addInput` is a call of one of two methods, by whether the input is a list. -/
theorem addInput_eq (expr : Text) (isList : Bool) :
    Binding.addInput expr isList =
      [{ text := "desc." ++ ((if isList then ("add_inputs" : Text) else "add_input") ++
          '(' :: (expr ++ [')'])) }] := by
  cases isList <;> simp [Binding.addInput]

/-- The statement of `addInput` is `UsedAs` the use of its input, as a list if it is one. -/
theorem usedAs_addInput (expr : Text) (isList : Bool) :
    UsedAs (Binding.addInput expr isList) [.input expr isList] := by
  rw [addInput_eq]
  refine usedAs_singleton (some (.input expr isList)) fun before => ?_
  rw [use?, descriptionCall?_append (by cases isList <;> decide)]
  cases isList <;> rfl

/-- The statement of `newDescription` makes no use of what the caller gives but the name. -/
theorem newDescription_uses {operation : Text} (h : IsIdentifier operation) :
    UsedAs (Binding.newDescription operation) [] ∧
      namedBy (Binding.newDescription operation) = ["name".toList] := by
  have hquote : '"' ∉ operation := h.not_mem (by decide)
  -- The statement assigns the description and calls none of its methods, so it hands over no
  -- variable.
  have hcall : afterStart? "desc." ("desc = OperationDescription(self, " ++
      Binding.between operation ++ ", self.make_name(" ++ Binding.between operation ++
        ", name))") = none := by
    simp [afterStart?]
  refine ⟨usedAs_singleton none fun before => ?_, ?_⟩
  · rw [use?, descriptionCall?, hcall]
    rfl
  -- The variable for the name is read behind the second time that the operation is named.
  · have htext : "desc = OperationDescription(self, " ++ Binding.between operation ++
        ", self.make_name(" ++ Binding.between operation ++ ", name))" =
          "desc = OperationDescription(self, \"" ++ (operation ++ '"' ::
            ((", self.make_name(\"" ++ operation ++ "\", ") ++ (("name" ++ [')']) ++ [')']))) := by
      simp [Binding.between]
    have hname : namingVariable? ("desc = OperationDescription(self, " ++
        Binding.between operation ++ ", self.make_name(" ++ Binding.between operation ++
          ", name))") = some "name".toList := by
      rw [htext, namingVariable?, afterStart?_append, Option.bind_some, cut_append_cons hquote]
      show (afterStart? (", self.make_name(\"" ++ operation ++ "\", ") _).bind _ = _
      rw [afterStart?_append, Option.bind_some, Script.closed?_append, Option.bind_some,
        Script.closed?_append]
    rw [namedBy, Binding.newDescription, List.filterMap_cons, hname]
    rfl

/-- A setter that a registered binding uses is a method of the description with `set_attr` at the
beginning of its name. -/
theorem exists_setterMethod {b : Binding} (hb : b ≠ .base) {a : Attribute}
    (h : Operation.Annotated TypeTable.standard a) :
    ∃ suffix, b.setterName a.tag = "desc." ++ ("set_attr" ++ suffix) ∧ '(' ∉ suffix := by
  have hname : ("desc.set_attr" : Text) = "desc." ++ "set_attr" := by decide
  cases b with
  | base => exact absurd rfl hb
  | graph => exact ⟨[], by rw [List.append_nil]; exact hname, by simp⟩
  | typed =>
    refine ⟨TypeTag.setterSuffix a.tag, ?_, ?_⟩
    · show ("desc.set_attr" : Text) ++ TypeTag.setterSuffix a.tag = _
      rw [hname]
      exact List.append_assoc _ _ _
    · obtain ⟨e, he, -⟩ := exists_element h
      -- A suffix is an underscore with a tag and perhaps the word for lists, none of which has a
      -- bracket.
      have hall : ∀ l : Bool, '(' ∉ '_' :: e.tag ++ (if l then ("_list" : Text) else []) := by
        cases e <;> decide
      have hsuffix : TypeTag.setterSuffix a.tag =
          '_' :: e.tag ++ (if (TypeTag.split a.tag).2 then ("_list" : Text) else []) := by
        unfold TypeTag.setterSuffix
        rw [he]
      rw [hsuffix]
      exact hall (TypeTag.split a.tag).2

/-- The variable is found by `valueName?` in a value, also where the value goes through a
constructor. -/
theorem valueName?_coerced {name : Text} (h : '(' ∉ name) (tag : Text) :
    valueName? (Binding.coerced tag name) = some name := by
  rw [Binding.coerced]
  split
  · next constructor hconstructor =>
    have hbracket : '(' ∉ constructor := by
      rw [TypeTag.constructor?] at hconstructor
      split at hconstructor
      · cases hconstructor
      · obtain ⟨e, -, he⟩ := Option.bind_eq_some_iff.mp hconstructor
        cases e <;> cases he <;> decide
    rw [valueName?, List.append_assoc, List.cons_append, cut_append_cons hbracket]
    exact Script.closed?_append ')' name
  · rw [valueName?, cut_of_not_mem h]

/-- The `use?` of the statement that sets an attribute is that of its variable, below its guard if
that stands in front of it. -/
theorem use?_setting {b : Binding} (hb : b ≠ .base) {a : Attribute}
    (h : Operation.Annotated TypeTable.standard a) (hname : IsIdentifier a.name)
    (before : Option Line) :
    use? before (setting b a) = some (.setting a.name (parameter a.name)
      (guardedBy before (setting b a) (parameter a.name))) := by
  have hquote : '"' ∉ a.name := hname.not_mem (by decide)
  have hbracket : '(' ∉ parameter a.name :=
    (Naming.isIdentifier_parameter hname).not_mem (by decide)
  obtain ⟨suffix, hsetter, hfree⟩ := exists_setterMethod hb h
  have hmethod : '(' ∉ ("set_attr" : Text) ++ suffix := by
    rw [List.mem_append, not_or]
    exact ⟨by decide, hfree⟩
  have hstart : Text.startsWith (("set_attr" : Text) ++ suffix) "set_attr" = true :=
    (startsWith_iff_isPrefix ..).mpr (List.prefix_append ..)
  -- The name of the method ends at the first bracket, since neither `set_attr` nor the suffix holds
  -- one.
  have hcall : descriptionCall? (setting b a).text = some (("set_attr" : Text) ++ suffix,
      Binding.between a.name ++ ", " ++ Binding.coerced a.tag (parameter a.name)) := by
    show descriptionCall? (settingCall (b.setterName a.tag) a.name
      (Binding.coerced a.tag (parameter a.name))) = _
    rw [settingCall, hsetter, List.append_assoc, descriptionCall?_append hmethod]
  have harguments : settingArguments? (Binding.between a.name ++ ", " ++
      Binding.coerced a.tag (parameter a.name)) = some (a.name, parameter a.name) := by
    have htext : Binding.between a.name ++ ", " ++ Binding.coerced a.tag (parameter a.name) =
        ['"'] ++ (a.name ++ '"' :: (", " ++ Binding.coerced a.tag (parameter a.name))) := by
      simp [Binding.between]
    rw [htext, settingArguments?, afterStart?_append, Option.bind_some, cut_append_cons hquote]
    show ((afterStart? ", " (", " ++ Binding.coerced a.tag (parameter a.name))).bind
      valueName?).map _ = _
    rw [afterStart?_append, Option.bind_some, valueName?_coerced hbracket]
    rfl
  rw [use?, hcall, Option.bind_some]
  show (if Text.startsWith (("set_attr" : Text) ++ suffix) "set_attr" then
    (settingArguments? _).map _ else _) = _
  rw [if_pos hstart, harguments]
  rfl

/-- The `settingStatements` for an attribute use its variable once, below a guard just when the
attribute has a default. -/
theorem usedAs_settingStatements {b : Binding} (hb : b ≠ .base) {a : Attribute}
    (h : Operation.Annotated TypeTable.standard a) (hname : IsIdentifier a.name) :
    UsedAs (settingStatements b a) [.setting a.name (parameter a.name) a.hasDefault] := by
  have hguard := aside_guards a
  intro before rest
  refine ⟨some (setting b a), ?_⟩
  rw [settingStatements, guards] at *
  cases hdefault : a.hasDefault with
  | false =>
    -- Nothing stands above the statement that it could be guarded by.
    have hdepth : (setting b a).depth = 0 := by simp [setting, hdefault]
    have hfree : guardedBy before (setting b a) (parameter a.name) = false := by
      cases before <;> simp [guardedBy, hdepth]
    rw [if_neg Bool.false_ne_true, List.nil_append, List.singleton_append, usesFrom,
      use?_setting hb h hname, hfree]
    rfl
  | true =>
    rw [hdefault, if_pos rfl] at hguard
    have hdepth : (setting b a).depth = 1 := by simp [setting, hdefault]
    have hguarded : guardedBy (some { text := guardText (parameter a.name) }) (setting b a)
        (parameter a.name) = true := by
      simp [guardedBy, hdepth]
    rw [if_pos rfl]
    show usesFrom before (_ :: setting b a :: rest) = _
    rw [usesFrom, use?_of_aside (hguard _ List.mem_cons_self), usesFrom, use?_setting hb h hname]
    show _ = Use.setting a.name (parameter a.name) true :: _
    rw [← hguarded]
    rfl

/-! ### The body of a method -/

namespace Operation

/-- The uses that `givenUses` finds in the body of an operation: each input is added, then each
required attribute is set, and then each optional one below its guard. -/
def expectedUses (op : Operation) : List Use :=
  op.inputs.map (fun a => .input (parameter a.name) a.isList) ++
    (op.classification.required.map (fun a => .setting a.name (parameter a.name) false) ++
      op.classification.optional.map fun a => .setting a.name (parameter a.name) true)

/-- The required attributes have no default and the optional ones have one, so the uses can be read
off `parameterAttributes`. -/
theorem expectedUses_eq (op : Operation) :
    op.expectedUses = op.inputs.map (fun a => .input (parameter a.name) a.isList) ++
      op.parameterAttributes.map fun a => .setting a.name (parameter a.name) a.hasDefault := by
  have hrequired : (op.classification.required.map fun a =>
      Use.setting a.name (parameter a.name) false) =
        op.classification.required.map fun a =>
          Use.setting a.name (parameter a.name) a.hasDefault := by
    -- The classification by defaults is what makes a setting guarded or not.
    refine List.map_congr_left fun a ha => ?_
    have hnone : a.hasDefault = false := by simpa using (List.mem_filter.mp ha).2
    rw [hnone]
  have hoptional : (op.classification.optional.map fun a =>
      Use.setting a.name (parameter a.name) true) =
        op.classification.optional.map fun a =>
          Use.setting a.name (parameter a.name) a.hasDefault := by
    refine List.map_congr_left fun a ha => ?_
    have hsome : a.hasDefault = true := (List.mem_filter.mp ha).2
    rw [hsome]
  rw [expectedUses, hrequired, hoptional, parameterAttributes, List.map_append]

/-- The variables in the `expectedUses` are those that the signature declares for what the caller
gives. -/
theorem map_name_expectedUses (op : Operation) :
    op.expectedUses.map Use.name = op.givenNames.map parameter := by
  simp only [expectedUses_eq, givenNames, List.map_append, List.map_map, Function.comp_def,
    Use.name]

/-- The body makes the `expectedUses`, under a binding that sets every attribute. -/
theorem usedAs_body {op : Operation} (hnames : op.WellNamed) {b : Binding} (hb : b ≠ .base)
    (h : ∀ a ∈ op.parameterAttributes, Annotated TypeTable.standard a) {p : Pieces}
    (hsetters : p.setters = op.parameterAttributes.flatMap (settingStatements b))
    (hfinish : b.finishOperation op.name = .ok p.finish) :
    UsedAs (p.body op) op.expectedUses := by
  -- The blocks of the inputs and of the settings make one use for each item.
  have hflat : ∀ {α : Type} (xs : List α) (block : α → List Line) (use : α → Use),
      (∀ x ∈ xs, UsedAs (block x) [use x]) → UsedAs (xs.flatMap block) (xs.map use) := by
    intro α xs block use hone
    rw [List.map_eq_flatMap]
    exact relates_flatMap usedAs_nil UsedAs.append hone
  have hinputs := hflat op.inputs (fun a => Binding.addInput (parameter a.name) a.isList)
    (fun a => .input (parameter a.name) a.isList) fun a _ => usedAs_addInput _ _
  have hcontrol : UsedAs Binding.addControlInputs [] := by
    have hfirst : ∀ before, use? before { text := "for control in self.control_dependencies:" } =
        none := fun _ => use?_of_aside (by decide : firstWord _ ≠ "desc".toList) _
    have hsecond : ∀ before, use? before
        { depth := 1, text := "desc.add_control_input(control)" } = none := by
      intro before
      have hcall : descriptionCall? "desc.add_control_input(control)" =
          some ("add_control_input".toList, "control".toList) := by decide
      rw [use?, hcall]
      rfl
    exact (usedAs_singleton none hfirst).append (usedAs_singleton none hsecond)
  have hsettings := hflat op.parameterAttributes (settingStatements b)
    (fun a => .setting a.name (parameter a.name) a.hasDefault) fun a ha =>
      usedAs_settingStatements hb (h a ha)
        (hnames.attributes a ((mem_parameterAttributes_iff op a).mp ha).1)
  have hreturn : UsedAs [op.returnLine] [] :=
    usedAs_of_aside (by simpa using aside_returnLine op)
  have hall := (newDescription_uses hnames.name).1.append (hinputs.append (hcontrol.append
    (hsettings.append ((usedAs_of_aside (aside_finishOperation hfinish)).append
      ((usedAs_of_aside (aside_outputsBlock hnames.outputs)).append hreturn)))))
  rw [expectedUses_eq, Pieces.body, hsetters]
  simpa using hall

/-- In a body, `namedBy` finds the operation named in the statement that begins its description, and
nowhere else. -/
theorem namedBy_body {op : Operation} (hnames : op.WellNamed) {b : Binding} (hb : b ≠ .base)
    (h : ∀ a ∈ op.parameterAttributes, Annotated TypeTable.standard a) {p : Pieces}
    (hsetters : p.setters = op.parameterAttributes.flatMap (settingStatements b))
    (hfinish : b.finishOperation op.name = .ok p.finish) :
    namedBy (p.body op) = ["name".toList] := by
  -- Outside the first statement, no line assigns a description, and the blocks are gone through in
  -- their order.
  have hnone : ∀ block : List Line, (∀ line ∈ block, namingVariable? line.text = none) →
      namedBy block = [] := fun block hblock => List.filterMap_eq_nil_iff.mpr hblock
  have hinputs : namedBy (op.inputs.flatMap fun a =>
      Binding.addInput (parameter a.name) a.isList) = [] := by
    refine hnone _ fun line hline => ?_
    obtain ⟨a, -, hline⟩ := List.mem_flatMap.mp hline
    rw [addInput_eq, List.mem_singleton] at hline
    rw [hline]
    exact namingVariable?_call _
  have hcontrol : namedBy Binding.addControlInputs = [] := by decide +kernel
  have hsettings : namedBy p.setters = [] := by
    refine hnone _ fun line hline => ?_
    rw [hsetters] at hline
    obtain ⟨a, ha, hline⟩ := List.mem_flatMap.mp hline
    rw [settingStatements] at hline
    rcases List.mem_append.mp hline with hguard | hsetting
    · exact namingVariable?_of_aside (aside_guards a line hguard)
    · obtain ⟨suffix, hsetter, -⟩ := exists_setterMethod hb (h a ha)
      rw [List.mem_singleton.mp hsetting]
      show namingVariable? (settingCall (b.setterName a.tag) _ _) = none
      rw [settingCall, hsetter, List.append_assoc]
      exact namingVariable?_call _
  have hfinish := hnone p.finish fun line hline =>
    namingVariable?_of_aside (aside_finishOperation hfinish line hline)
  have houtputs := hnone op.outputsBlock fun line hline =>
    namingVariable?_of_aside (aside_outputsBlock hnames.outputs line hline)
  have hreturn := hnone [op.returnLine] (by
    simpa using namingVariable?_of_aside (aside_returnLine op))
  have hfirst := (newDescription_uses hnames.name).2
  rw [namedBy] at hinputs hcontrol hsettings hfinish houtputs hreturn hfirst ⊢
  simp only [Pieces.body, List.filterMap_append, hfirst, hinputs, hcontrol, hsettings, hfinish,
    houtputs, hreturn, List.append_nil]

end Operation

end TypedOps
