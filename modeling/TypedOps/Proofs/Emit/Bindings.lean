import TypedOps.Proofs.Emit.Marks
import TypedOps.Proofs.Emit.ParameterNames

/-!
# `TypedOps.Proofs.Emit.Bindings`: two bindings write the same methods

A binding decides how an attribute is set and how an operation is finished, and nothing else
in a method. `Line.role` tells the statements of a body apart by their text: those that set an
attribute, those that finish the operation, and those that all bindings share.

* `Operation.settersBlock_eq_ok`: the setters that a registered binding writes, in the open.
* `Operation.only_body`: the statements of a body, role by role. Names must be identifiers here,
  or a variable could pass for a setter.
* `Operation.pieces_cases`: what can fail in a method comes before the binding is asked for
  anything, so both bindings fail alike or their methods agree.
* `progress_graph_typed`: so two runs report, warn and fail alike.
* `generateModuleNamed_bindings`: so do two modules, and they agree method by method.
-/

set_option autoImplicit false

namespace TypedOps

open Naming (parameter)
open Text

/-! ### What a statement is there for -/

/-- What a statement of a method is there for. The methods that two values of `Binding` give may
differ in the first two roles only. -/
inductive Line.Role where
  /-- The statement sets an attribute. -/
  | setting
  /-- The statement finishes the operation, or refuses it. -/
  | finishing
  /-- The statement is there for anything else. -/
  | shared
deriving DecidableEq, Repr

/-- The statements that finish an operation or ask for its status, in the words of either `Binding`.
-/
def finishingTexts : List Text :=
  ["status = Status()", "op = desc.finish_operation(status)", "if not status.ok:",
    "with Status() as status:", "if status.error:"]

/-- The role of a statement, which its text shows: the call of a setter, one of `finishingTexts` or
a `raise`, or anything else. -/
def Line.role (line : Line) : Line.Role :=
  if Text.startsWith line.text "desc.set_attr" then .setting
  else if finishingTexts.contains line.text || Text.startsWith line.text "raise OpCreateError(" then
    .finishing
  else .shared

/-- The statements of one `Line.Role` in a block, in their order. -/
def only (role : Line.Role) (block : List Line) : List Line :=
  block.filter fun line => line.role == role

/-- The statements `only` of one role in two blocks are those of the first, followed by those of the
second. -/
@[simp] theorem only_append (role : Line.Role) (xs ys : List Line) :
    only role (xs ++ ys) = only role xs ++ only role ys :=
  List.filter_append ..

/-- In a block where all statements have one role, `only` keeps all of them or none. -/
theorem only_of_forall {role : Line.Role} {block : List Line}
    (h : ∀ line ∈ block, line.role = role) (wanted : Line.Role) :
    only wanted block = if role = wanted then block else [] := by
  split
  · next heq =>
    refine List.filter_eq_self.mpr fun line hline => ?_
    rw [h line hline, heq, beq_self_eq_true]
  · next hne =>
    refine List.filter_eq_nil_iff.mpr fun line hline => ?_
    rw [h line hline]
    simpa using hne

/-! ### The statements that all bindings share -/

/-- A statement has the role `shared` where its text is neither that of a setter nor that of a
finishing statement. -/
theorem Line.role_eq_shared {line : Line}
    (hset : Text.startsWith line.text "desc.set_attr" = false)
    (htexts : line.text ∉ finishingTexts)
    (hraise : Text.startsWith line.text "raise OpCreateError(" = false) :
    line.role = .shared := by
  have hcontains : finishingTexts.contains line.text = false := by simpa using htexts
  rw [Line.role, hset, hcontains, hraise]
  rfl

/-- A statement that begins with a variable has the role `shared`: a setter begins with no
identifier, and the first words of the finishing statements are reserved. -/
theorem Line.role_of_variable {line : Line} {name rest : Text} (hname : IsIdentifier name)
    (hline : line.text = parameter name ++ ' ' :: rest) : line.role = .shared := by
  have hidentifier := Naming.isIdentifier_parameter hname
  -- All that the role reads in front of the first blank is the variable, which is an identifier and
  -- no reserved name.
  have hfirst : line.text.takeWhile (· != ' ') = parameter name := by
    rw [hline]
    exact takeWhile_append_cons (hidentifier.not_mem (by decide)) rest
  have hfree := Naming.parameter_not_mem_reserved name
  rw [← hfirst] at hidentifier hfree
  refine Line.role_eq_shared ?_ (fun hmem => ?_) ?_
  · refine Bool.eq_false_iff.mpr fun hset => ?_
    obtain ⟨after, hafter⟩ := (startsWith_iff_isPrefix ..).mp hset
    rw [← hafter] at hidentifier
    have hdot : '.' ∈ (("desc.set_attr" : Text) ++ after).takeWhile (· != ' ') := by simp
    exact absurd (hidentifier '.' hdot) (by decide)
  · have hall : ∀ t ∈ finishingTexts, t.takeWhile (· != ' ') ∈ Naming.reservedNames := by
      rw [finishingTexts]
      -- The texts are unfolded as lists of code points before they are compared, which is much
      -- cheaper than comparing literals.
      repeat rw [String.toList_ofList]
      decide +kernel
    exact hfree (hall _ hmem)
  · refine Bool.eq_false_iff.mpr fun hraise => ?_
    obtain ⟨after, hafter⟩ := (startsWith_iff_isPrefix ..).mp hraise
    rw [← hafter] at hfree
    have hword : (("raise OpCreateError(" : Text) ++ after).takeWhile (· != ' ') =
        "raise".toList := by simp
    exact hfree (hword ▸ by decide)

/-- The guards in front of the statement that sets an attribute: one that is optional is set only
where the caller gives a value. The statements themselves are `setting`s. -/
def guards (a : Attribute) : List Line :=
  if a.hasDefault then [{ text := "if " ++ parameter a.name ++ " is not None:" }] else []

/-- The `guards` are shared, since no finishing statement ends as they do. -/
theorem role_guards (a : Attribute) : ∀ line ∈ guards a, line.role = .shared := by
  intro line hline
  have htext : line.text = "if " ++ parameter a.name ++ " is not None:" := by
    rw [guards] at hline
    split at hline
    · rw [List.mem_singleton.mp hline]
    · cases hline
  have hend : ("None:" : Text) <:+ line.text := by
    rw [htext]
    exact ⟨"if " ++ parameter a.name ++ " is not ", by simp⟩
  refine Line.role_eq_shared ?_ (fun hmem => ?_) ?_
  · simp [htext, Text.startsWith, afterStart?]
  · have hall : ∀ t ∈ finishingTexts, ¬("None:" : Text) <:+ t := by
      rw [finishingTexts]
      repeat rw [String.toList_ofList]
      decide
    exact hall _ hmem hend
  · simp [htext, Text.startsWith, afterStart?]

/-- The texts that show what a `Binding` decides on, or the beginnings of them. -/
def decisiveTexts : List Text :=
  "desc.set_attr".toList :: "raise OpCreateError(".toList :: finishingTexts

/-- How the other statements begin, guards and those with a variable in front aside. -/
def sharedFronts : List Text :=
  ["desc = OperationDescription(self, ", "desc.add_input", "for control in ", "desc.add_control_",
    "_", "return "]

/-- None of the `sharedFronts` goes on as one of the `decisiveTexts` does, nor the other way round.
-/
theorem sharedFronts_apart :
    ∀ front ∈ sharedFronts, ∀ t ∈ decisiveTexts, ¬front <+: t ∧ ¬t <+: front := by
  -- Written out as characters, the texts are not decoded again for each pair.
  rw [sharedFronts, decisiveTexts, finishingTexts]
  repeat rw [String.toList_ofList]
  decide

/-- A statement that begins with one of the `sharedFronts` is shared, whatever names follow in it.
-/
theorem Line.role_of_front {line : Line} {front : Text} (hmem : front ∈ sharedFronts)
    (hfront : front <+: line.text) : line.role = .shared := by
  -- Of two beginnings of one text, one is the beginning of the other.
  have hother : ∀ t ∈ decisiveTexts, ¬t <+: line.text := fun t ht hprefix =>
    (List.prefix_or_prefix_of_prefix hfront hprefix).elim (sharedFronts_apart front hmem t ht).1
      (sharedFronts_apart front hmem t ht).2
  rw [decisiveTexts, List.forall_mem_cons, List.forall_mem_cons] at hother
  refine Line.role_eq_shared (Bool.eq_false_iff.mpr fun hset => ?_)
    (fun hmem => hother.2.2 _ hmem List.prefix_rfl) (Bool.eq_false_iff.mpr fun hraise => ?_)
  · exact hother.1 ((startsWith_iff_isPrefix ..).mp hset)
  · exact hother.2.1 ((startsWith_iff_isPrefix ..).mp hraise)

/-- The statement of `newDescription`, which begins the description, is shared by the bindings. -/
theorem role_newDescription (operation : Text) :
    ∀ line ∈ Binding.newDescription operation, line.role = .shared := by
  refine List.forall_mem_singleton.mpr (Line.role_of_front (.head _) ?_)
  simp only [List.append_assoc]
  exact List.prefix_append ..

/-- The statement of `addInput` is shared by the bindings, for a list as for a single input. -/
theorem role_addInput (expr : Text) (isList : Bool) :
    ∀ line ∈ Binding.addInput expr isList, line.role = .shared := by
  refine List.forall_mem_singleton.mpr (Line.role_of_front (.tail _ (.head _)) ?_)
  simp only [List.append_assoc]
  refine List.IsPrefix.trans ?_ (List.prefix_append ..)
  cases isList <;> decide

/-- The loop of `addControlInputs` is shared by the bindings. -/
theorem role_addControlInputs : ∀ line ∈ Binding.addControlInputs, line.role = .shared := by
  have hloop : "for control in ".toList <+: "for control in self.control_dependencies:".toList := by
    decide
  have hadd : "desc.add_control_".toList <+: "desc.add_control_input(control)".toList := by
    decide
  exact List.forall_mem_cons.mpr ⟨Line.role_of_front (.tail _ (.tail _ (.head _))) hloop,
    List.forall_mem_singleton.mpr
      (Line.role_of_front (.tail _ (.tail _ (.tail _ (.head _)))) hadd)⟩

namespace Operation

/-- The statements of `outputsBlock` begin with a low line or with the variable of an output. A
property of all such statements holds of them. -/
theorem forall_outputsBlock {op : Operation} {P : Line → Prop}
    (hcount : ∀ rest, P { text := '_' :: rest })
    (hvariable : ∀ a ∈ op.outputs, ∀ rest, P { text := parameter a.name ++ ' ' :: rest }) :
    ∀ line ∈ op.outputsBlock, P line := by
  -- An output that is a list has a statement more, the one that asks for its length.
  have hbind : ∀ a ∈ op.outputs, ∀ line ∈ bindOutput a, P line := by
    intro a ha line hline
    rw [bindOutput] at hline
    repeat rw [String.toList_ofList] at hline
    split at hline
    · simp only [List.mem_cons, List.not_mem_nil, or_false] at hline
      rcases hline with rfl | rfl | rfl
      · exact hcount _
      · exact hvariable a ha _
      · exact hcount _
    · simp only [List.mem_cons, List.not_mem_nil, or_false] at hline
      rcases hline with rfl | rfl
      · exact hvariable a ha _
      · exact hcount _
  intro line hline
  rw [outputsBlock] at hline
  split at hline
  · cases hline
  · rcases List.mem_cons.mp hline with rfl | hline
    · exact hcount _
    · obtain ⟨a, ha, hline⟩ := List.mem_flatMap.mp hline
      exact hbind a ha line hline

/-- The statements of `outputsBlock` are shared by the bindings, if the outputs have identifiers as
names. -/
theorem role_outputsBlock {op : Operation} (houtputs : ∀ a ∈ op.outputs, IsIdentifier a.name) :
    ∀ line ∈ op.outputsBlock, line.role = .shared := by
  refine forall_outputsBlock (fun rest => ?_) fun a ha rest =>
    Line.role_of_variable (houtputs a ha) rfl
  have hmem : "_".toList ∈ sharedFronts := by simp [sharedFronts]
  exact Line.role_of_front hmem ⟨rest, rfl⟩

/-- The `returnLine` is shared by the bindings. -/
theorem role_returnLine (op : Operation) : op.returnLine.role = .shared := by
  have hmem : "return ".toList ∈ sharedFronts := by simp [sharedFronts]
  rw [returnLine]
  split
  · exact Line.role_of_front hmem (by decide)
  · exact Line.role_of_front hmem (List.prefix_append ..)
  · have hself : "return ".toList <+: "return self.".toList := by decide
    refine Line.role_of_front hmem (hself.trans ?_)
    simp only [List.append_assoc]
    exact List.prefix_append ..

end Operation

/-! ### The statements that a binding decides on -/

/-- What stands behind the name of the typed setter for a `TypeTag`: the element, and whether there
is a list of them. -/
def TypeTag.setterSuffix (tag : Text) : Text :=
  let ending : Text := if (split tag).2 then "_list" else []
  '_' :: (split tag).1 ++ ending

/-- The name of the call that sets attributes of a tag. Only the typed binding lets the tag decide
it, by `TypeTag.setterSuffix`. -/
def Binding.setterName (b : Binding) (tag : Text) : Text :=
  match b with
  | .typed => "desc.set_attr" ++ TypeTag.setterSuffix tag
  | _ => "desc.set_attr"

/-- The call of a setter with the name of an attribute and its value, where `callee` is the method
of the description. -/
def settingCall (callee name expr : Text) : Text :=
  callee ++ '(' :: (Binding.between name ++ ", " ++ expr ++ [')'])

/-- The `settingCall` of an attribute, as a statement. An optional attribute is set below its guard.
-/
def setting (b : Binding) (a : Attribute) : Line where
  depth := if a.hasDefault then 1 else 0
  text := settingCall (b.setterName a.tag) a.name (Binding.coerced a.tag (parameter a.name))

/-- The statement that sets an attribute, behind its guards. The block of setters is a row of these
(`settersBlock_eq_ok`). -/
def settingStatements (b : Binding) (a : Attribute) : List Line := guards a ++ [setting b a]

/-- An attribute that is `Annotated` has one of the six element types, and the annotation is the one
mapped to it. -/
theorem exists_element {a : Attribute} (h : Operation.Annotated TypeTable.standard a) :
    ∃ e : ElementType, (TypeTag.split a.tag).1 = e.tag ∧
      TypeTag.mapped TypeTable.standard a.tag =
        (TypeTable.standard e, (TypeTag.split a.tag).2) := by
  obtain ⟨hint, hhint⟩ := Option.ne_none_iff_exists'.mp h
  obtain ⟨e, he, -⟩ := Option.bind_eq_some_iff.mp hhint
  have htag : e.tag = (TypeTag.split a.tag).1 := by simpa using List.find?_some he
  exact ⟨e, htag.symm, by rw [TypeTag.mapped, he]; rfl⟩

/-- A tag is put together again from what `split` makes of it, its element and whether it is a list.
-/
theorem TypeTag.eq_of_split (tag : Text) :
    tag = if (split tag).2 then "list(" ++ (split tag).1 ++ [')'] else (split tag).1 := by
  rw [split]
  split
  · next rest hrest =>
    have htag := eq_append_of_afterStart? hrest
    split
    · next hclosed =>
      obtain ⟨before, hbefore⟩ : [')'] <:+ tag :=
        List.reverse_prefix.mp ((startsWith_iff_isPrefix ..).mp hclosed)
      rw [htag] at hbefore
      -- The opening bracket is not the closing one, so something stands behind it.
      rcases List.eq_nil_or_concat rest with rfl | ⟨element, last, rfl⟩
      · have hlast := congrArg List.getLast? hbefore
        simp at hlast
      · rw [List.concat_eq_append, ← List.append_assoc] at hbefore
        have hlast : [')'] = [last] := (List.append_inj' hbefore rfl).2
        rw [htag, List.concat_eq_append, ← hlast]
        simp
    · rfl
  · rfl

/-- Two attributes with annotations have one `setterSuffix` just when they have one tag. -/
theorem setterSuffix_eq_iff {a a' : Attribute}
    (h : Operation.Annotated TypeTable.standard a)
    (h' : Operation.Annotated TypeTable.standard a') :
    TypeTag.setterSuffix a.tag = TypeTag.setterSuffix a'.tag ↔ a.tag = a'.tag := by
  refine ⟨fun heq => ?_, fun heq => by rw [heq]⟩
  obtain ⟨e, he, -⟩ := exists_element h
  obtain ⟨e', he', -⟩ := exists_element h'
  have hcases : ∀ l l' : Bool, ('_' :: e.tag ++ if l then ("_list" : Text) else []) =
      ('_' :: e'.tag ++ if l' then ("_list" : Text) else []) → e = e' ∧ l = l' := by
    cases e <;> cases e' <;> decide
  rw [TypeTag.setterSuffix, TypeTag.setterSuffix, he, he'] at heq
  obtain ⟨rfl, hlist⟩ := hcases _ _ heq
  rw [TypeTag.eq_of_split a.tag, TypeTag.eq_of_split a'.tag, he, he', hlist]

/-- A call with its bracket written at once is the `settingCall` of what stands in front of the
bracket. -/
theorem settingCall_eq {callee opening : Text} (h : opening = callee ++ ['(']) (name expr : Text) :
    opening ++ Binding.between name ++ ", " ++ expr ++ [')'] = settingCall callee name expr := by
  subst h
  simp only [settingCall, List.append_assoc, List.cons_append, List.nil_append]

/-- A registered binding sets every attribute that has an annotation, by the statement `setting`. -/
theorem setAttribute_eq_ok {b : Binding} (hb : b ≠ .base) {a : Attribute}
    (h : Operation.Annotated TypeTable.standard a) (operation expr : Text) :
    b.setAttribute TypeTable.standard operation a expr =
      .ok [{ text := settingCall (b.setterName a.tag) a.name (Binding.coerced a.tag expr) }] := by
  obtain ⟨e, htag, hmapped⟩ := exists_element h
  obtain ⟨hint, setter, hhint, hsetter⟩ := Operation.exists_typedSetter e
  -- The setters of the typed binding are named after the tags, which is why both bindings agree on
  -- them.
  have hsuffix : setter = e.tag := by
    cases e <;> cases hhint <;> cases hsetter <;> rfl
  have hcall : b.setterCall operation a hint (TypeTag.split a.tag).2
      (Binding.coerced a.tag expr) =
        .ok (settingCall (b.setterName a.tag) a.name (Binding.coerced a.tag expr)) := by
    cases b with
    | base => exact absurd rfl hb
    | graph =>
      have hopening : ("desc.set_attr(" : Text) = "desc.set_attr" ++ ['('] := by decide
      exact congrArg Except.ok (settingCall_eq hopening _ _)
    | typed =>
      have hending : ∀ l : Bool, (if l then ("_list(" : Text) else "(") =
          (if l then ("_list" : Text) else []) ++ ['('] := by decide
      have hline : ("desc.set_attr_" : Text) = "desc.set_attr" ++ ['_'] := by decide
      rw [Binding.setterCall, hsetter]
      refine congrArg Except.ok (settingCall_eq ?_ _ _)
      show ("desc.set_attr_" : Text) ++ setter ++ _ = _
      rw [hending, hsuffix, ← htag, hline, ← List.append_assoc, List.append_assoc _ ['_'],
        List.append_assoc _ (['_'] ++ _)]
      rfl
  rw [Binding.setAttribute, hmapped, hhint]
  exact (map_eq_ok_iff ..).mpr ⟨_, hcall, rfl⟩

/-- No name of a binding stands for `base`, the one without steps of its own. -/
theorem Binding.ne_base_of_ofName? {name : Text} {b : Binding} (h : Binding.ofName? name = some b) :
    b ≠ .base := by
  rintro rfl
  obtain ⟨before, after, hplace, -⟩ := List.lookup_eq_some_iff.mp h
  have hmem : (name, Binding.base) ∈ Binding.registered := by simp [hplace]
  simp [Binding.registered] at hmem

/-- The statements of `finishOperation` are some of the `finishingTexts` and the one that raises. A
property of all these texts holds of the statements. -/
theorem Binding.forall_finishOperation {b : Binding} {operation : Text} {finish : List Line}
    {P : Text → Prop} (htexts : ∀ t ∈ finishingTexts, P t)
    (hraise : P (Binding.raiseCreateError operation).text)
    (h : b.finishOperation operation = .ok finish) : ∀ line ∈ finish, P line.text := by
  simp only [finishingTexts, List.forall_mem_cons] at htexts
  obtain ⟨hstatus, hfinish, hfailed, hwith, herror, -⟩ := htexts
  cases b with
  | base => cases h
  | graph =>
    cases h
    simp only [deeper, List.map_cons, List.map_nil, List.cons_append, List.nil_append,
      List.forall_mem_cons]
    exact ⟨hstatus, hfinish, hfailed, hraise, List.forall_mem_nil _⟩
  | typed =>
    cases h
    simp only [deeper, List.map_cons, List.map_nil, List.cons_append, List.nil_append,
      List.forall_mem_cons]
    exact ⟨hwith, hfinish, herror, hraise, List.forall_mem_nil _⟩

/-- A registered binding gives a `finishOperation` for every operation, by statements with the
finishing role only. -/
theorem exists_finishOperation {b : Binding} (hb : b ≠ .base) (operation : Text) :
    ∃ finish, b.finishOperation operation = .ok finish ∧
      ∀ line ∈ finish, line.role = .finishing := by
  have hraise : ∀ depth,
      Line.role ⟨depth, (Binding.raiseCreateError operation).text⟩ = .finishing := by
    simp [Binding.raiseCreateError, Line.role, Text.startsWith, afterStart?]
  have htext : ∀ t ∈ finishingTexts, ∀ depth, Line.role ⟨depth, t⟩ = .finishing := by
    -- No finishing text begins like a setter, so the second test of the role decides.
    have hset : ∀ t ∈ finishingTexts, Text.startsWith t "desc.set_attr" = false := by
      rw [finishingTexts]
      repeat rw [String.toList_ofList]
      decide
    intro t ht depth
    rw [Line.role, hset t ht, List.contains_iff_mem.mpr ht]
    rfl
  obtain ⟨finish, hfinish⟩ : ∃ finish, b.finishOperation operation = .ok finish := by
    cases b with
    | base => exact absurd rfl hb
    | graph | typed => exact ⟨_, rfl⟩
  refine ⟨finish, hfinish, fun line hline => ?_⟩
  exact Binding.forall_finishOperation (P := fun t => ∀ depth, Line.role ⟨depth, t⟩ = .finishing)
    htext hraise hfinish line hline line.depth

/-- The statement `setting` an attribute is a setter, under either name of the call. -/
theorem role_setting (b : Binding) (a : Attribute) : (setting b a).role = .setting := by
  have hname : ("desc.set_attr" : Text) <+: b.setterName a.tag := by
    cases b with
    | typed => exact List.prefix_append ..
    | base | graph => exact List.prefix_rfl
  have hset := (startsWith_iff_isPrefix (setting b a).text "desc.set_attr").mpr
    (hname.trans (List.prefix_append ..))
  rw [Line.role, if_pos hset]

/-- Of the `settingStatements` for an attribute one is a setter, and the guards are what all
bindings share. -/
theorem only_settingStatements (b : Binding) (a : Attribute) (role : Line.Role) :
    only role (settingStatements b a) =
      match role with
      | .setting => [setting b a]
      | .finishing => []
      | .shared => guards a := by
  have hset : ∀ line ∈ [setting b a], line.role = .setting := by simp [role_setting]
  rw [settingStatements, only_append, only_of_forall (role_guards a), only_of_forall hset]
  cases role <;> simp

namespace Operation

/-- Where all attributes of an operation have annotations, the block that sets them is
`settingStatements` for each. -/
theorem settersBlock_eq_ok {b : Binding} (hb : b ≠ .base) {op : Operation}
    (h : ∀ a ∈ op.parameterAttributes, Annotated TypeTable.standard a) :
    op.settersBlock TypeTable.standard b =
      .ok (op.parameterAttributes.flatMap (settingStatements b)) := by
  have hrequired : (op.classification.required.mapM fun a =>
      b.setAttribute TypeTable.standard op.name a (parameter a.name)) =
        .ok (op.classification.required.map (settingStatements b)) := by
    -- A required attribute has no default, and so no guard.
    refine mapM_eq_ok_of_forall fun a ha => ?_
    have hnone : a.hasDefault = false := by simpa using (List.mem_filter.mp ha).2
    rw [setAttribute_eq_ok hb (h a (List.mem_append_left _ ha)), settingStatements, guards,
      setting, hnone]
    rfl
  have hoptional : (op.classification.optional.mapM fun a => do
      let setter ← b.setAttribute TypeTable.standard op.name a (parameter a.name)
      return ({ text := "if " ++ parameter a.name ++ " is not None:" } : Line) ::
        deeper setter) =
        .ok (op.classification.optional.map (settingStatements b)) := by
    refine mapM_eq_ok_of_forall fun a ha => ?_
    have hsome : a.hasDefault = true := (List.mem_filter.mp ha).2
    rw [setAttribute_eq_ok hb (h a (List.mem_append_right _ ha)), settingStatements, guards,
      setting, hsome]
    rfl
  rw [settersBlock, bind_eq_ok_iff, parameterAttributes, List.flatMap_append, List.flatMap_def,
    List.flatMap_def]
  exact ⟨_, hrequired, (bind_eq_ok_iff ..).mpr ⟨_, hoptional, rfl⟩⟩

/-! ### Two methods for one operation -/

/-- The parameters (`signatureParams`) and the docstring (`docstringLines`) of a method, which no
binding has a part in. They are all that can fail for an operation that is let through. -/
def heading (table : TypeTable) (op : Operation) (doc : Documentation) :
    Except EmitFault (List Text × List Text) := do
  let params ← op.signatureParams table
  let docLines ← (docstringLines op doc).mapError .badDefault
  return (params, docLines)

/-- A registered binding adds to the `heading` of a method what never fails, so whether a method can
be written does not depend on the binding. -/
theorem pieces_eq_map {b : Binding} (hb : b ≠ .base) {op : Operation}
    (h : ∀ a ∈ op.parameterAttributes, Annotated TypeTable.standard a) (doc : Documentation) :
    ∃ finish, b.finishOperation op.name = .ok finish ∧
      (∀ line ∈ finish, line.role = .finishing) ∧
      op.pieces TypeTable.standard b doc =
        (op.heading TypeTable.standard doc).map fun (params, docLines) =>
          ⟨params, docLines, op.parameterAttributes.flatMap (settingStatements b), finish⟩ := by
  obtain ⟨finish, hfinish, hrole⟩ := exists_finishOperation hb op.name
  refine ⟨finish, hfinish, hrole, ?_⟩
  rw [pieces, heading, settersBlock_eq_ok hb h, hfinish]
  cases op.signatureParams TypeTable.standard with
  | error fault => rfl
  | ok params => cases (docstringLines op doc).mapError EmitFault.badDefault <;> rfl

/-- The statements that all bindings write for an operation, in their order. They have the
`Line.Role` of what is shared. -/
def sharedStatements (op : Operation) : List Line :=
  Binding.newDescription op.name ++
    (op.inputs.flatMap (fun a => Binding.addInput (parameter a.name) a.isList) ++
      (Binding.addControlInputs ++
        (op.parameterAttributes.flatMap guards ++ (op.outputsBlock ++ [op.returnLine]))))

/-- The statements of a body, taken by `only` role by role: the setters one for each attribute, the
finishing ones as the binding has them, and the rest shared. -/
theorem only_body {op : Operation} (houtputs : ∀ a ∈ op.outputs, IsIdentifier a.name)
    {b : Binding} {p : Pieces}
    (hsetters : p.setters = op.parameterAttributes.flatMap (settingStatements b))
    (hfinish : ∀ line ∈ p.finish, line.role = .finishing) (role : Line.Role) :
    only role (p.body op) =
      match role with
      | .setting => op.parameterAttributes.map (setting b)
      | .finishing => p.finish
      | .shared => op.sharedStatements := by
  -- Every section has one role, apart from the setters with their guards.
  have hinputs : ∀ line ∈ op.inputs.flatMap fun a =>
      Binding.addInput (parameter a.name) a.isList, line.role = .shared := by
    intro line hline
    obtain ⟨a, -, hline⟩ := List.mem_flatMap.mp hline
    exact role_addInput _ _ line hline
  have hreturn : ∀ line ∈ [op.returnLine], line.role = .shared := by
    simp [role_returnLine]
  have hsettings : only role p.setters =
      op.parameterAttributes.flatMap fun a => only role (settingStatements b a) := by
    rw [hsetters]
    exact List.filter_flatMap ..
  simp only [Pieces.body, only_append, only_of_forall (role_newDescription op.name),
    only_of_forall hinputs, only_of_forall role_addControlInputs, hsettings,
    only_settingStatements, only_of_forall hfinish, only_of_forall (role_outputsBlock houtputs),
    only_of_forall hreturn]
  cases role with
  | setting => simp [List.map_eq_flatMap]
  | finishing => simp
  | shared => simp [sharedStatements]

/-- How the `Pieces` that the two bindings write for an operation agree: role by role, in the order
of the statements. -/
structure MethodsAgree (op : Operation) (graph typed : Pieces) : Prop where
  /-- The parameters are the same. -/
  params : typed.params = graph.params
  /-- The docstring is the same. -/
  docLines : typed.docLines = graph.docLines
  /-- The statements are the same that neither set an attribute nor finish the operation. -/
  shared : only .shared (typed.body op) = only .shared (graph.body op)
  /-- The attributes are set in the order of the signature. -/
  graphSettings : only .setting (graph.body op) = op.parameterAttributes.map (setting .graph)
  /-- The typed binding sets the attributes in the same order. -/
  typedSettings : only .setting (typed.body op) = op.parameterAttributes.map (setting .typed)
  /-- What is left under the graph binding finishes the operation. -/
  graphFinish : Binding.graph.finishOperation op.name = .ok (only .finishing (graph.body op))
  /-- What is left under the typed binding finishes the operation. -/
  typedFinish : Binding.typed.finishOperation op.name = .ok (only .finishing (typed.body op))

/-- The `pieces` of a method under both bindings in step: both fail alike, or their methods agree.
-/
theorem pieces_cases {op : Operation} (houtputs : ∀ a ∈ op.outputs, IsIdentifier a.name)
    (h : ∀ a ∈ op.parameterAttributes, Annotated TypeTable.standard a) (doc : Documentation) :
    (∃ fault, op.pieces TypeTable.standard .graph doc = .error fault ∧
        op.pieces TypeTable.standard .typed doc = .error fault) ∨
      ∃ graph typed, op.pieces TypeTable.standard .graph doc = .ok graph ∧
        op.pieces TypeTable.standard .typed doc = .ok typed ∧ MethodsAgree op graph typed := by
  obtain ⟨finish, hfinish, hrole, hgraph⟩ := pieces_eq_map (b := .graph) (by decide) h doc
  obtain ⟨finish', hfinish', hrole', htyped⟩ := pieces_eq_map (b := .typed) (by decide) h doc
  rw [hgraph, htyped]
  cases op.heading TypeTable.standard doc with
  | error fault => exact .inl ⟨fault, rfl, rfl⟩
  | ok head =>
    obtain ⟨params, docLines⟩ := head
    refine .inr ⟨_, _, rfl, rfl, ?_⟩
    -- The statements of a role are the same list under either binding, but for the two roles in
    -- which they may differ.
    have honly := only_body houtputs (b := .graph) (p := ⟨params, docLines, _, finish⟩) rfl hrole
    have honly' := only_body houtputs (b := .typed) (p := ⟨params, docLines, _, finish'⟩) rfl hrole'
    exact {
      params := rfl
      docLines := rfl
      shared := (honly' .shared).trans (honly .shared).symm
      graphSettings := honly .setting
      typedSettings := honly' .setting
      graphFinish := hfinish.trans (congrArg Except.ok (honly .finishing).symm)
      typedFinish := hfinish'.trans (congrArg Except.ok (honly' .finishing).symm) }

end Operation

/-! ### Two runs -/

open Operation (MethodsAgree pieces_cases)

section
variable (docs : Text → Option Documentation)

/-- An operation without a `skipReason?` has annotations for all its parameters, since the want of
one is a reason to skip it. -/
theorem annotated_of_skipReason? {op : Operation} {doc : Option Documentation}
    (h : op.skipReason? TypeTable.standard doc = none) :
    ∀ a ∈ op.parameterAttributes, Operation.Annotated TypeTable.standard a := by
  obtain ⟨-, hfit, -⟩ := (Operation.skipReason?_eq_none_iff ..).mp h
  intro a ha
  exact hfit a ((Operation.mem_parameterAttributes_iff op a).mp ha).1

/-- The `progress` of two runs over the same operations in step, by induction: they report, warn and
fail alike, and their blocks agree one by one. -/
theorem progress_graph_typed {ops : List Operation} (hnames : ∀ op ∈ ops, op.WellNamed) :
    let graph := progress TypeTable.standard .graph docs ops
    let typed := progress TypeTable.standard .typed docs ops
    typed.report = graph.report ∧ typed.warnings = graph.warnings ∧
      typed.fault? = graph.fault? := by
  induction ops with
  | nil => exact ⟨rfl, rfl, rfl⟩
  | cons op ops ih =>
    -- The walks stop at the same operation, because reasons do not depend on the binding and
    -- `pieces_cases` keeps faults in step.
    obtain ⟨hreport, hwarnings, hfault⟩ := ih fun o ho => hnames o (List.mem_cons_of_mem op ho)
    cases hreason : op.skipReason? TypeTable.standard (docs op.name) with
    | some reason =>
      simp only [progress_cons_of_reason _ _ _ hreason]
      exact ⟨by rw [hreport], by rw [hwarnings], hfault⟩
    | none =>
      obtain ⟨doc, hdoc⟩ := exists_documentation TypeTable.standard docs hreason
      have hcases := pieces_cases (hnames op List.mem_cons_self).outputs
        (annotated_of_skipReason? hreason) doc
      rcases hcases with ⟨fault, hgraph, htyped⟩ | ⟨p, p', hgraph, htyped, -⟩
      · -- The run ends here under both bindings.
        have hblock : ∀ b, op.pieces TypeTable.standard b doc = .error fault →
            op.methodBlock TypeTable.standard b doc = .error fault := by
          intro b hb
          rw [Operation.methodBlock_eq_map, hb]
          rfl
        simp only [progress_cons_of_fault _ _ _ hreason hdoc (hblock _ hgraph),
          progress_cons_of_fault _ _ _ hreason hdoc (hblock _ htyped), and_self]
      · have hblock := (Operation.methodBlock_eq_ok_iff ..).mpr ⟨p, hgraph, rfl⟩
        have hblock' := (Operation.methodBlock_eq_ok_iff ..).mpr ⟨p', htyped, rfl⟩
        simp only [progress_cons_of_block _ _ _ hreason hdoc hblock,
          progress_cons_of_block _ _ _ hreason hdoc hblock']
        exact ⟨by rw [hreport], hwarnings, hfault⟩

/-- How the modules that the two bindings give for the same operations agree, method by method in
the sense of `MethodsAgree`. -/
structure ModulesAgree (ops : List Operation) (graph typed : GeneratedModule) : Prop where
  /-- Both modules report the same operations. -/
  report : typed.report = graph.report
  /-- The lines of either are those of the import section, of the methods and around them, and the
  methods agree one by one. -/
  methods : ∃ written written' : List (Operation × Operation.Pieces),
    written.map Prod.fst = surfaced TypeTable.standard docs (sortedByName ops) ∧
      lines graph.code =
        (moduleLines .graph (writtenBlocks written)).map (Line.render 0) ++ [[]] ∧
      lines typed.code =
        (moduleLines .typed (writtenBlocks written')).map (Line.render 0) ++ [[]] ∧
      List.Forall₂ (fun w w' => w'.1 = w.1 ∧ MethodsAgree w.1 w.2 w'.2) written written'

/-- Where `generateModule` gives a module under both bindings, the two modules agree. -/
theorem modulesAgree {ops : List Operation} {warnings warnings' : List Warning}
    {m m' : GeneratedModule} (hnames : ∀ op ∈ ops, op.WellNamed)
    (hgraph : generateModule TypeTable.standard .graph ops docs = (warnings, .ok m))
    (htyped : generateModule TypeTable.standard .typed ops docs = (warnings', .ok m'))
    (hreport : m'.report = m.report) : ModulesAgree docs ops m m' := by
  have hplain := TypeTable.standard_isPlain
  obtain ⟨written, hops, -, hwritten, hlines⟩ := lines_of_generateModule hplain hnames hgraph
  obtain ⟨written', hops', -, hwritten', hlines'⟩ := lines_of_generateModule hplain hnames htyped
  refine ⟨hreport, written, written', hops, hlines, hlines', ?_⟩
  have hsame : List.Forall₂ (fun w w' => w.1 = w'.1) written written' := by
    rw [← List.forall₂_map_right_iff, ← List.forall₂_map_left_iff, List.forall₂_eq_eq_eq]
    exact hops.trans hops'.symm
  refine List.forall₂_iff_zip.mpr ⟨hsame.length_eq, fun {w w'} hpair => ?_⟩
  obtain ⟨hw, hw'⟩ := List.of_mem_zip hpair
  have hop : w.1 = w'.1 := (List.forall₂_iff_zip.mp hsame).2 hpair
  -- An operation has one documentation, so both methods are made from it.
  obtain ⟨doc, hdoc, hpieces⟩ := hwritten w hw
  obtain ⟨doc', hdoc', hpieces'⟩ := hwritten' w' hw'
  rw [← hop] at hdoc' hpieces'
  obtain rfl : doc = doc' := Option.some.inj (hdoc.symm.trans hdoc')
  have hmem : w.1 ∈ surfaced TypeTable.standard docs (sortedByName ops) :=
    hops ▸ List.mem_map_of_mem hw
  have hpasses : w.1.skipReason? TypeTable.standard (docs w.1.name) = none := by
    simpa using (List.mem_filter.mp hmem).2
  have hwellNamed := hnames w.1 (mem_of_mem_surfaced TypeTable.standard docs hmem)
  rcases pieces_cases hwellNamed.outputs (annotated_of_skipReason? hpasses) doc with
    ⟨fault, hfault, -⟩ | ⟨p, p', hp, hp', hagree⟩
  · rw [hpieces] at hfault
    cases hfault
  · obtain rfl : w.2 = p := Except.ok.inj (hpieces.symm.trans hp)
    obtain rfl : w'.2 = p' := Except.ok.inj (hpieces'.symm.trans hp')
    exact ⟨hop.symm, hagree⟩

end

/-- Take any operations whose names are identifiers, and any documentation. Under the two registered
bindings `generateModuleNamed` gives a module, or the same fault ends the run; the warnings are the
same, and so is the report. Then the methods agree one by one: without the setters and the finishing
statements their lines are the same, and the setters stand in the same order at the same depth, each
with the same attribute and the same value. Two attributes have one typed setter just when they have
one tag. -/
theorem generateModuleNamed_bindings (ops : List Operation) (docs : Text → Option Documentation)
    (hnames : ∀ op ∈ ops, op.WellNamed) :
    let graph := generateModuleNamed TypeTable.standard "graph" ops docs
    let typed := generateModuleNamed TypeTable.standard "typed" ops docs
    let taken := surfaced TypeTable.standard docs (sortedByName ops)
    typed.1 = graph.1 ∧
      ((∃ fault, graph.2 = .error fault ∧ typed.2 = .error fault) ∨
        ∃ m m', graph.2 = .ok m ∧ typed.2 = .ok m' ∧ ModulesAgree docs ops m m') ∧
      ∀ op ∈ taken, ∀ op' ∈ taken, ∀ a ∈ op.parameterAttributes, ∀ a' ∈ op'.parameterAttributes,
        (TypeTag.setterSuffix a.tag = TypeTag.setterSuffix a'.tag ↔ a.tag = a'.tag) := by
  intro graph typed taken
  have hgraph : graph = generateModule TypeTable.standard .graph ops docs := rfl
  have htyped : typed = generateModule TypeTable.standard .typed ops docs := rfl
  have hsorted : ∀ op ∈ sortedByName ops, op.WellNamed := fun op hop =>
    hnames op ((sortedByName_perm ops).mem_iff.mp hop)
  obtain ⟨hreport, hwarnings, hfault⟩ := progress_graph_typed docs hsorted
  refine ⟨hwarnings, ?_, fun op hop op' hop' a ha a' ha' => ?_⟩
  -- A fault ends both runs or neither, since `progress_graph_typed` has the same fault on both
  -- sides.
  · cases hcase : (progress TypeTable.standard .graph docs (sortedByName ops)).fault? with
    | some fault =>
      refine .inl ⟨fault, ?_, ?_⟩
      · rw [hgraph, generateModule, hcase]
      · rw [htyped, generateModule, hfault, hcase]
    | none =>
      have hok := (generateModule_eq_ok_iff TypeTable.standard .graph docs ops _ _).mpr
        ⟨hcase, rfl, rfl⟩
      have hok' := (generateModule_eq_ok_iff TypeTable.standard .typed docs ops _ _).mpr
        ⟨hfault.trans hcase, rfl, rfl⟩
      exact .inr ⟨_, _, congrArg Prod.snd hok, congrArg Prod.snd hok',
        modulesAgree docs hnames hok hok' hreport⟩
  · have hfit : ∀ o ∈ taken, ∀ x ∈ o.parameterAttributes,
        Operation.Annotated TypeTable.standard x := by
      intro o ho x hx
      have hpasses : o.skipReason? TypeTable.standard (docs o.name) = none := by
        simpa using (List.mem_filter.mp ho).2
      exact annotated_of_skipReason? hpasses x hx
    exact setterSuffix_eq_iff (hfit op hop a ha) (hfit op' hop' a' ha')

namespace Sample

/-- An operation with required and optional attributes, one of which an input stands for. -/
def pool : Operation where
  name := "Pool"
  inputs := [{ name := "value", typeAttr := "T" }]
  outputs := [{ name := "out" }]
  attributes :=
    [{ name := "exact", tag := "bool", hasDefault := true, defaultValue := .bool true },
      { name := "T", tag := "type" }, { name := "strides", tag := "list(int)" }]

/-- Documentation for the operation `Pool` alone. -/
def poolDocs (name : Text) : Option Documentation :=
  if name = "Pool" then some { name := name, summary := "Pools." } else none

end Sample

/-- Both bindings generate a module for `Pool`, and set its two attributes in the same order. -/
theorem generateModuleNamed_bindings_pool :
    ∃ m m', generateModuleNamed TypeTable.standard "graph" [Sample.pool] Sample.poolDocs =
        ([], .ok m) ∧
      generateModuleNamed TypeTable.standard "typed" [Sample.pool] Sample.poolDocs =
        ([], .ok m') ∧
      m.report.emitted = ["Pool".toList] ∧
      ModulesAgree Sample.poolDocs [Sample.pool] m m' ∧
      Sample.pool.parameterAttributes.map (setting .graph) =
        [{ text := "desc.set_attr(\"strides\", strides)" },
          { depth := 1, text := "desc.set_attr(\"exact\", bool(exact))" }] ∧
      Sample.pool.parameterAttributes.map (setting .typed) =
        [{ text := "desc.set_attr_int_list(\"strides\", strides)" },
          { depth := 1, text := "desc.set_attr_bool(\"exact\", bool(exact))" }] := by
  have hnames : ∀ op ∈ [Sample.pool], op.WellNamed := by
    intro op hop
    rw [List.mem_singleton.mp hop]
    exact ⟨by decide, by decide, by decide, by decide⟩
  have hsorted : sortedByName [Sample.pool] = [Sample.pool] := by simp [sortedByName]
  have hgenerated : ∀ b ∈ [Binding.graph, Binding.typed], ∃ m,
      generateModule TypeTable.standard b [Sample.pool] Sample.poolDocs = ([], .ok m) ∧
        m.report.emitted = ["Pool".toList] := by
    intro b hb
    rw [generateModule, hsorted]
    simp only [List.mem_cons, List.not_mem_nil, or_false] at hb
    rcases hb with rfl | rfl <;> exact ⟨_, rfl, rfl⟩
  obtain ⟨m, hgraph, hemitted⟩ := hgenerated .graph (by decide)
  obtain ⟨m', htyped, -⟩ := hgenerated .typed (by decide)
  obtain ⟨-, hrun, -⟩ := generateModuleNamed_bindings [Sample.pool] Sample.poolDocs hnames
  refine ⟨m, m', hgraph, htyped, hemitted, ?_, ?_⟩
  -- The modules of the theorem are the ones that the run gives.
  · rcases hrun with ⟨fault, hfault, -⟩ | ⟨g, t, hg, ht, hagree⟩
    · cases hfault.symm.trans (congrArg Prod.snd hgraph)
    obtain rfl : g = m := Except.ok.inj (hg.symm.trans (congrArg Prod.snd hgraph))
    obtain rfl : t = m' := Except.ok.inj (ht.symm.trans (congrArg Prod.snd htyped))
    exact hagree
  · repeat rw [String.toList_ofList]
    decide +kernel

end TypedOps
