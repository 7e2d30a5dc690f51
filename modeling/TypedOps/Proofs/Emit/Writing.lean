import TypedOps.Proofs.Emit.Bindings

/-!
# `TypedOps.Proofs.Emit.Writing`: writing a method line by line

`Operation.emit` puts a whole block at the level of a writer. `Operation.emitting` writes it line
by line: it goes a level deeper and back for every block inside, into a writer of its own, and what
this holds at the end goes to the target. A fault may come anywhere on the way. It leaves the
blocks around it, each of which goes back to its level first, and reaches neither the target's
lines nor its level.

* `Writes`: what a program comes to at any level from zero on, the block that it writes or the
  fault that ends it. The level is the same afterwards in either case. Parts of a program are put
  together (`Writes.both`, `writes_bind`, `Writes.indented`, `writes_forM`), so the level needs a
  look only where a block is entered and left.
* `Operation.writes_method`: so the program for a method comes to `Operation.methodBlock`.
* `Operation.emitting_confined`: what the target of a method gets, and when it gets nothing.
-/

set_option autoImplicit false

namespace TypedOps

open Naming (parameter)
open Text

/-! ### Programs that write -/

/-- A program that changes a `Writer`. It may end with a fault, and then what it has written stays.
-/
abbrev Writing := ExceptT EmitFault (StateM Writer)

namespace Writing

variable {α β : Type}

/-- What a program does to a `Writer`: its outcome, and the writer behind it. -/
def on (p : Writing α) (w : Writer) : Except EmitFault α × Writer := p.run.run w

/-- The program that writes a line at the current level of the `Writer`. -/
def line (t : Text) : Writing Unit := modify (·.line t)

/-- The program that writes lines of one level, one by one, each by `line`. -/
def flat (block : List Line) : Writing Unit := block.forM fun l => line l.text

/-- The program that goes one level deeper, by `Writer.indent`, which is always allowed. -/
def indent : Writing Unit := modify Writer.indent

/-- The program that goes one level back, by `Writer.dedent?`, which is refused at level zero. -/
def dedent : Writing Unit := do
  match (← get).dedent? with
  | some w => set w
  | none => throw .belowZero

/-- A program run one level deeper, between `indent` and `dedent`. It goes back in any case, as a
context manager would. -/
def indented (p : Writing Unit) : Writing Unit := do
  indent
  try p finally dedent

/-- What a program does `on` a writer goes on behind a step, unless that step has ended it with a
fault. -/
theorem on_bind (p : Writing α) (f : α → Writing β) (w : Writer) :
    (p >>= f).on w = match p.on w with
      | (.ok a, w') => (f a).on w'
      | (.error fault, w') => (.error fault, w') := by
  show ((ExceptT.bindCont f (p.on w).1).run (p.on w).2) = _
  rcases p.on w with ⟨fault | a, w'⟩ <;> rfl

/-- Above level zero the way back from an `indented` program is open, whatever came of it. -/
theorem on_indented {p : Writing Unit} {w w' : Writer} {r : Except EmitFault Unit}
    (h : p.on w.indent = (r, w')) (hlevel : w'.level ≠ 0) :
    (indented p).on w = (r, { w' with level := w'.level - 1 }) := by
  have hback : dedent.on w' = (.ok (), { w' with level := w'.level - 1 }) := by
    show (match w'.dedent? with
      | some w => set w
      | none => throw .belowZero : Writing Unit).on w' = _
    rw [Writer.dedent?, if_neg hlevel]
    rfl
  show (try p finally dedent : Writing Unit).on w.indent = _
  change p w.indent = (r, w') at h
  change dedent w' = _ at hback
  -- Whatever the outcome is, it is carried past the way back.
  cases r <;>
    simp only [tryFinally, tryFinally', on, ExceptT.mk, ExceptT.run, StateT.run, StateT.bind,
      Functor.map, ExceptT.map, bind, h, hback] <;>
    rfl

end Writing

open Writing (flat)

/-! ### What programs come to -/

/-- What a program comes to wherever the level is not below zero: it writes a block, as
`Writer.block` would, or it writes something and ends with a fault. The level is the same
afterwards. -/
def Writes (p : Writing Unit) (outcome : Except EmitFault (List Line)) : Prop :=
  ∀ w : Writer, 0 ≤ w.level →
    match outcome with
    | .ok block => p.on w = (.ok (), w.block block)
    | .error fault => ∃ written, p.on w = (.error fault, w.block written)

/-- What two parts, one behind the other, come to: both blocks, or the first fault. It is how the
outcomes that `Writes` speaks of are put together. -/
def both (x y : Except EmitFault (List Line)) : Except EmitFault (List Line) := do
  return (← x) ++ (← y)

/-- Two blocks put into a writer by `block`, one behind the other, are one block put into it. -/
theorem Writer.block_block (w : Writer) (xs ys : List Line) :
    (w.block xs).block ys = w.block (xs ++ ys) := by
  simp [Writer.block]

/-- A program that does nothing `Writes` no line. -/
theorem writes_pure : Writes (pure ()) (.ok []) := by
  intro w _
  show (Except.ok (), w) = (.ok (), w.block [])
  simp [Writer.block]

/-- A program for a `line` writes it at depth zero of its block. -/
theorem writes_line (t : Text) : Writes (Writing.line t) (.ok [{ text := t }]) := by
  intro w _
  show (Except.ok (), w.line t) = (.ok (), w.block [{ text := t }])
  simp [Writer.line, Writer.block, Line.render]

/-- A program that throws `Writes` nothing and comes to its fault. -/
theorem writes_throw (fault : EmitFault) : Writes (throw fault) (.error fault) := by
  intro w _
  refine ⟨[], ?_⟩
  show (Except.error fault, w) = (.error fault, w.block [])
  simp [Writer.block]

/-- Two programs that come to their outcomes one behind the other come to `both`. -/
theorem Writes.both {p q : Writing Unit} {x y : Except EmitFault (List Line)} (hp : Writes p x)
    (hq : Writes q y) : Writes (do p; q) (both x y) := by
  intro w hlevel
  have hfirst := hp w hlevel
  -- A fault of the first program ends both, with what it has written up to there.
  cases x with
  | error fault =>
    obtain ⟨written, hfirst⟩ := hfirst
    exact ⟨written, by rw [Writing.on_bind, hfirst]⟩
  | ok xs =>
    have hsecond := hq (w.block xs) hlevel
    have hrun : (do p; q : Writing Unit).on w = q.on (w.block xs) := by
      rw [Writing.on_bind, hfirst]
    rw [hrun]
    cases y with
    | error fault =>
      obtain ⟨written, hsecond⟩ := hsecond
      exact ⟨xs ++ written, by rw [hsecond, Writer.block_block]⟩
    | ok ys => exact hsecond.trans (by rw [Writer.block_block])

/-- A computation in front of a program has `Writes` with its fault, or with what the program comes
to for its result. -/
theorem writes_bind {α : Type} {x : Except EmitFault α} {f : α → Writing Unit}
    {g : α → Except EmitFault (List Line)} (h : ∀ a, Writes (f a) (g a)) :
    Writes (ofExcept x >>= f) (x >>= g) := by
  cases x with
  | error fault => exact writes_throw fault
  | ok a => exact h a

/-- An `indented` program writes its block one level deeper. It ends at its own level, which is
above zero, so the way back is open. -/
theorem Writes.indented {p : Writing Unit} {x : Except EmitFault (List Line)} (h : Writes p x) :
    Writes (Writing.indented p) (x.map deeper) := by
  have hback : ∀ (w : Writer) (block : List Line) (r : Except EmitFault Unit), 0 ≤ w.level →
      p.on w.indent = (r, w.indent.block block) →
      (Writing.indented p).on w = (r, w.block (deeper block)) := by
    intro w block r hlevel hrun
    -- A block one level deeper, rendered at a level, is the block rendered at the next level.
    have hrender : (deeper block).map (Line.render w.level) =
        block.map (Line.render (w.level + 1)) := by
      rw [deeper, List.map_map]
      refine List.map_congr_left fun line _ => ?_
      have hdepth : w.level + ((line.depth + 1 : Nat) : Int) = w.level + 1 + line.depth := by omega
      simp only [Function.comp_apply, Line.render]
      rw [hdepth]
    have habove : (w.indent.block block).level ≠ 0 := by
      show w.level + 1 ≠ 0
      omega
    rw [Writing.on_indented hrun habove]
    simp [Writer.block, Writer.indent, hrender]
  intro w hlevel
  have hdeeper : 0 ≤ w.indent.level := by
    show 0 ≤ w.level + 1
    omega
  have hrun := h w.indent hdeeper
  -- In either case the program has written some block below, which is the deeper block here.
  cases x with
  | error fault =>
    obtain ⟨written, hrun⟩ := hrun
    exact ⟨deeper written, hback w written _ hlevel hrun⟩
  | ok block => exact hback w block _ hlevel hrun

/-- A program for each item has `Writes` with the blocks of all, one behind the other, or with the
first fault. -/
theorem writes_forM {α : Type} {f : α → Writing Unit} {g : α → Except EmitFault (List Line)}
    (xs : List α) (h : ∀ a, Writes (f a) (g a)) :
    Writes (xs.forM f) ((xs.mapM g).map List.flatten) := by
  induction xs with
  | nil => exact writes_pure
  | cons a xs ih =>
    have hboth : ((a :: xs).mapM g).map List.flatten =
        both (g a) ((xs.mapM g).map List.flatten) := by
      rw [List.mapM_cons]
      cases g a with
      | error fault => rfl
      | ok block => cases xs.mapM g <;> rfl
    rw [hboth]
    exact (h a).both ih

/-- Lines of one level, written one by one by `flat`, are a block. -/
theorem writes_flat {block : List Line} (h : ∀ line ∈ block, line.depth = 0) :
    Writes (flat block) (.ok block) := by
  induction block with
  | nil => exact writes_pure
  | cons line block ih =>
    have hline : line = { text := line.text } := by
      have hdepth := h line List.mem_cons_self
      cases line
      cases hdepth
      rfl
    have hboth := (writes_line line.text).both (ih fun l hl => h l (List.mem_cons_of_mem line hl))
    rw [← hline] at hboth
    exact hboth

/-! ### The program for a method -/

namespace Binding

/-- Write the loop over control inputs, as `Binding.addControlInputs` has it. -/
def writeControlInputs : Writing Unit := do
  Writing.line "for control in self.control_dependencies:"
  Writing.indented (Writing.line "desc.add_control_input(control)")

/-- Write the statement that sets an attribute, as `Binding.setAttribute` has it. -/
def writeSetting (table : TypeTable) (b : Binding) (operation : Text) (a : Attribute)
    (expr : Text) : Writing Unit :=
  match TypeTag.mapped table a.tag with
  | (none, _) => throw (.unmapped operation a.name a.tag)
  | (some element, isList) => do
    let call ← ofExcept (b.setterCall operation a element isList (coerced a.tag expr))
    Writing.line call

/-- Write the statements that finish an operation, as `Binding.finishOperation` has them. -/
def writeFinish (b : Binding) (operation : Text) : Writing Unit :=
  match b with
  | .base => throw .unimplemented
  | .graph => do
    Writing.line "status = Status()"
    Writing.line "op = desc.finish_operation(status)"
    Writing.line "if not status.ok:"
    Writing.indented (Writing.line (raiseCreateError operation).text)
  | .typed => do
    Writing.line "with Status() as status:"
    Writing.indented do
      Writing.line "op = desc.finish_operation(status)"
      Writing.line "if status.error:"
      Writing.indented (Writing.line (raiseCreateError operation).text)

end Binding

namespace Operation

/-- Write the named tuple for several outputs, and nothing for fewer. What it writes is the
`outputsClassBlock`. -/
def writeOutputsClass (op : Operation) : Writing Unit :=
  match op.outputs with
  | [] | [_] => pure ()
  | outputs => do
    Writing.line ("class " ++ op.outputsClass ++ "(NamedTuple):")
    Writing.indented do
      Writing.line ("\"\"\"Outputs of :meth:\x60" ++ Naming.method op.name ++ "\x60.\"\"\"")
      flat (outputs.map fun a => { text := parameter a.name ++ ": " ++ a.typeHint })

/-- Write the statements that set the attributes by `writeSetting`, first the required ones and then
each optional one below its guard. -/
def writeSettings (table : TypeTable) (b : Binding) (op : Operation) : Writing Unit := do
  op.classification.required.forM fun a => b.writeSetting table op.name a (parameter a.name)
  op.classification.optional.forM fun a => do
    Writing.line ("if " ++ parameter a.name ++ " is not None:")
    Writing.indented (b.writeSetting table op.name a (parameter a.name))

/-- Write a method, with the tuple of its outputs in front by `writeOutputsClass`. -/
def writeMethod (table : TypeTable) (b : Binding) (op : Operation) (doc : Documentation) :
    Writing Unit := do
  op.writeOutputsClass
  let params ← ofExcept (op.signatureParams table)
  Writing.line (op.defLine params).text
  Writing.indented do
    let docLines ← ofExcept ((docstringLines op doc).mapError .badDefault)
    flat (docstringBlock docLines)
    flat (Binding.newDescription op.name)
    op.inputs.forM fun a => flat (Binding.addInput (parameter a.name) a.isList)
    Binding.writeControlInputs
    op.writeSettings table b
    b.writeFinish op.name
    flat op.outputsBlock
    Writing.line op.returnLine.text

/-- Write a method into a `Writer` of its own, at the level of the target, and then its lines to the
target. -/
def emitting (table : TypeTable) (b : Binding) (op : Operation) (doc : Documentation) :
    Writing Unit := do
  let target ← get
  let (outcome, scratch) := (op.writeMethod table b doc).on { level := target.level }
  ofExcept outcome
  set { target with lines := target.lines ++ scratch.lines }

end Operation

/-! ### What it comes to -/

/-- The program `writeControlInputs` writes the loop as a line and a block below it. -/
theorem Binding.writes_controlInputs :
    Writes Binding.writeControlInputs (.ok Binding.addControlInputs) :=
  (writes_line _).both (writes_line _).indented

/-- The program `writeSetting` sets an attribute, or ends with the fault of its type or its setter.
-/
theorem Binding.writes_setting (table : TypeTable) (b : Binding) (operation : Text)
    (a : Attribute) (expr : Text) :
    Writes (b.writeSetting table operation a expr) (b.setAttribute table operation a expr) := by
  rw [writeSetting, setAttribute]
  rcases TypeTag.mapped table a.tag with ⟨_ | element, isList⟩
  · exact writes_throw _
  · have hmap : ∀ call : Except EmitFault Text,
        call.map (fun call => [({ text := call } : Line)]) =
          call >>= fun call => .ok [{ text := call }] := by
      intro call
      cases call <;> rfl
    show Writes _ ((b.setterCall operation a element isList (coerced a.tag expr)).map _)
    rw [hmap]
    exact writes_bind fun call => writes_line call

/-- The program `writeFinish` finishes an operation, or ends with a fault where the binding has no
way to do it. -/
theorem Binding.writes_finish (b : Binding) (operation : Text) :
    Writes (b.writeFinish operation) (b.finishOperation operation) := by
  have hraise := (writes_line (raiseCreateError operation).text).indented
  cases b with
  | base => exact writes_throw _
  | graph => exact (writes_line _).both ((writes_line _).both ((writes_line _).both hraise))
  | typed =>
    exact (writes_line _).both ((writes_line _).both ((writes_line _).both hraise)).indented

namespace Operation

/-- The named tuple is written where there are several outputs, as the block `outputsClassBlock`. -/
theorem writes_outputsClass (op : Operation) :
    Writes op.writeOutputsClass (.ok op.outputsClassBlock) := by
  rw [writeOutputsClass, outputsClassBlock]
  rcases op.outputs with _ | ⟨first, _ | ⟨second, rest⟩⟩
  · exact writes_pure
  · exact writes_pure
  · have hfields : ∀ line ∈ (first :: second :: rest).map fun a =>
        ({ text := parameter a.name ++ ": " ++ a.typeHint } : Line), line.depth = 0 := by
      simp
    exact (writes_line _).both ((writes_line _).both (writes_flat hfields)).indented

/-- The attributes are set as in `settersBlock`, first those that must be given. -/
theorem writes_settings (table : TypeTable) (b : Binding) (op : Operation) :
    Writes (op.writeSettings table b) (op.settersBlock table b) := by
  have hset := fun a : Attribute => b.writes_setting table op.name a (parameter a.name)
  have hguarded := fun a : Attribute =>
    (writes_line ("if " ++ parameter a.name ++ " is not None:")).both (hset a).indented
  have hrun := (writes_forM op.classification.required hset).both
    (writes_forM op.classification.optional hguarded)
  -- A guard is written by itself and the setter below it, which is one block for `settersBlock`.
  have hoptional : (fun a : Attribute =>
      both (.ok [{ text := "if " ++ parameter a.name ++ " is not None:" }])
        ((b.setAttribute table op.name a (parameter a.name)).map deeper)) = fun a => do
      let setter ← b.setAttribute table op.name a (parameter a.name)
      return { text := "if " ++ parameter a.name ++ " is not None:" } :: deeper setter := by
    funext a
    cases b.setAttribute table op.name a (parameter a.name) <;> rfl
  rw [hoptional] at hrun
  have houtcome : ∀ required optional : Except EmitFault (List (List Line)),
      both (required.map List.flatten) (optional.map List.flatten) = do
        let required ← required
        let optional ← optional
        return required.flatten ++ optional.flatten := by
    intro required optional
    cases required <;> cases optional <;> rfl
  rw [houtcome] at hrun
  exact hrun

/-- A method is written as its `methodBlock`, or the first fault of its parts ends the program. -/
theorem writes_method (table : TypeTable) (b : Binding) (op : Operation) (doc : Documentation) :
    Writes (op.writeMethod table b doc) (op.methodBlock table b doc) := by
  have hdocstring : ∀ ls, Writes (flat (docstringBlock ls)) (.ok (docstringBlock ls)) := by
    refine fun ls => writes_flat fun line hline => ?_
    obtain ⟨t, -, rfl⟩ := List.mem_map.mp hline
    rfl
  have hdescription : Writes (flat (Binding.newDescription op.name))
      (.ok (Binding.newDescription op.name)) := writes_flat (by simp [Binding.newDescription])
  have hinputs : Writes
      (op.inputs.forM fun a => flat (Binding.addInput (parameter a.name) a.isList))
      (.ok (op.inputs.flatMap fun a => Binding.addInput (parameter a.name) a.isList)) := by
    have hdepth : ∀ a : Argument, ∀ line ∈ Binding.addInput (parameter a.name) a.isList,
        line.depth = 0 := by
      simp [Binding.addInput]
    have hrun := writes_forM op.inputs fun a => writes_flat (hdepth a)
    rw [mapM_eq_ok_of_forall fun _ _ => rfl] at hrun
    exact hrun
  have houtputs : Writes (flat op.outputsBlock) (.ok op.outputsBlock) :=
    writes_flat (forall_outputsBlock (fun _ => rfl) fun _ _ _ => rfl)
  have hreturn : Writes (Writing.line op.returnLine.text) (.ok [op.returnLine]) := by
    have hline : op.returnLine = { text := op.returnLine.text } := by
      rw [returnLine]
      split <;> rfl
    have hrun := writes_line op.returnLine.text
    rwa [← hline] at hrun
  have hbody := fun docLines => (hdocstring docLines).both (hdescription.both (hinputs.both
    (Binding.writes_controlInputs.both ((writes_settings table b op).both
      ((b.writes_finish op.name).both (houtputs.both hreturn))))))
  have hrun := (writes_outputsClass op).both (writes_bind (x := op.signatureParams table)
    fun params => (writes_line (op.defLine params).text).both
      (writes_bind (x := (docstringLines op doc).mapError .badDefault)
        fun docLines => hbody docLines).indented)
  have houtcome : op.methodBlock table b doc = both (.ok op.outputsClassBlock) (do
      let params ← op.signatureParams table
      both (.ok [op.defLine params]) (Except.map deeper (do
        let docLines ← (docstringLines op doc).mapError .badDefault
        both (.ok (docstringBlock docLines)) (both (.ok (Binding.newDescription op.name))
          (both (.ok (op.inputs.flatMap fun a => Binding.addInput (parameter a.name) a.isList))
            (both (.ok Binding.addControlInputs) (both (op.settersBlock table b)
              (both (b.finishOperation op.name)
                (both (.ok op.outputsBlock) (.ok [op.returnLine])))))))))) := by
    -- Both sides meet the faults in the same order, so they are split alike.
    rw [methodBlock]
    cases op.signatureParams table with
    | error fault => rfl
    | ok params =>
      cases (docstringLines op doc).mapError EmitFault.badDefault with
      | error fault => rfl
      | ok docLines =>
        cases op.settersBlock table b with
        | error fault => rfl
        | ok setters =>
          cases b.finishOperation op.name with
          | error fault => rfl
          | ok finish =>
            simp [both, bind, Except.bind, pure, Except.pure, Except.map]
  rw [houtcome]
  exact hrun

/-- Line by line, the program `emitting` does to the target what putting the block there does. A
fault leaves the target as it was. -/
theorem emitting_eq_emit (table : TypeTable) (b : Binding) (op : Operation) (doc : Documentation)
    (level : Nat) (lines : List Text) :
    (op.emitting table b doc).on { level := level, lines := lines } =
      match op.emit table b doc { level := level, lines := lines } with
      | .ok w => (.ok (), w)
      | .error fault => (.error fault, { level := level, lines := lines }) := by
  have hrun := writes_method table b op doc { level := level } (Int.natCast_nonneg level)
  -- What is left in the writer of its own after a fault goes nowhere.
  have hscratch : (op.emitting table b doc).on { level := level, lines := lines } =
      match (op.writeMethod table b doc).on { level := level } with
      | (.ok _, scratch) => (.ok (), { level := level, lines := lines ++ scratch.lines })
      | (.error fault, _) => (.error fault, { level := level, lines := lines }) := by
    show (match (op.writeMethod table b doc).on { level := level } with
      | (outcome, scratch) => (do
          ofExcept outcome
          set ({ level := level, lines := lines ++ scratch.lines } : Writer) : Writing Unit)).on
        { level := level, lines := lines } = _
    rcases (op.writeMethod table b doc).on { level := level } with ⟨fault | ⟨⟩, scratch⟩ <;> rfl
  rw [hscratch, emit_eq_map]
  cases hblock : op.methodBlock table b doc with
  | error fault =>
    rw [hblock] at hrun
    obtain ⟨written, hrun⟩ := hrun
    rw [hrun]
    rfl
  | ok block =>
    rw [hblock] at hrun
    rw [hrun]
    simp [Except.map, Writer.block]

end Operation

/-! ### The lines that a target gets -/

/-- A line stands in `render` behind the indentation of the level, or is empty. -/
theorem Line.render_cases (level : Nat) (line : Line) :
    line.text = [] ∧ line.render level = [] ∨
      line.render level = fill (4 * level) ' ' ++ (fill (4 * line.depth) ' ' ++ line.text) := by
  rw [Line.render, indented]
  split
  · next hempty => exact .inl ⟨List.isEmpty_iff.mp hempty, rfl⟩
  · have hcolumns : 4 * ((level : Int) + line.depth).toNat = 4 * level + 4 * line.depth := by omega
    refine .inr ?_
    rw [indentation, hcolumns, fill, List.replicate_add, List.append_assoc]
    rfl

/-- A line of `render` opens a method at the level just when it is a line of the block that does:
below that, a space stands where the word would. -/
theorem startsWith_render (level : Nat) (line : Line) :
    startsWith (line.render level) (fill (4 * level) ' ' ++ "def ") =
      (line.depth == 0 && startsWith line.text "def ") := by
  have hmark : ("def " : Text) = ['d', 'e', 'f', ' '] := by decide
  rw [Bool.eq_iff_iff, Bool.and_eq_true, startsWith_iff_isPrefix, startsWith_iff_isPrefix]
  rcases Line.render_cases level line with ⟨htext, hrender⟩ | hrender
  · simp [htext, hrender, hmark]
  · rw [hrender, List.prefix_append_right_inj]
    cases hdepth : line.depth with
    | zero => simp [fill]
    | succ depth => simp [fill, hmark, List.replicate_succ, Nat.mul_succ]

/-- A method written by `emitting` is all or nothing for the writer that it goes to, and it goes to
the level of the writer. One of two things is the case, whatever has been written. Either the same
fault ends it each time, and the lines and the level are those from before. Or the level is, and the
same lines are put behind those from before: each is one line, which is empty or stands behind the
indentation of the level, and just one of them opens a method there, the signature. No line of a
docstring does. -/
theorem Operation.emitting_confined {table : TypeTable} (htable : table.IsPlain) (b : Binding)
    {op : Operation} (hnames : op.OneLineNames) (doc : Documentation) (level : Nat) :
    (∃ fault, ∀ lines,
      (op.emitting table b doc).on ⟨level, lines⟩ = (.error fault, ⟨level, lines⟩) ∧
        op.emit table b doc ⟨level, lines⟩ = .error fault) ∨
    ∃ block, (∀ lines,
        (op.emitting table b doc).on ⟨level, lines⟩ = (.ok (), ⟨level, lines ++ block⟩) ∧
          op.emit table b doc ⟨level, lines⟩ = .ok ⟨level, lines ++ block⟩) ∧
      (∀ l ∈ block, OneLine l ∧ (l = [] ∨ fill (4 * level) ' ' <+: l)) ∧
      ∃ params, op.signatureParams table = .ok params ∧
        block.filter (fun l => startsWith l (fill (4 * level) ' ' ++ "def ")) =
          [fill (4 * level) ' ' ++ (op.defLine params).text] := by
  have hrun := emitting_eq_emit table b op doc level
  have hemit := emit_eq_map table b op doc level
  -- Where the method cannot be written, `emit` keeps the lines, so does the writing, and that is
  -- the first case.
  cases hblock : op.methodBlock table b doc with
  | error fault =>
    refine .inl ⟨fault, fun lines => ?_⟩
    have hfault : op.emit table b doc ⟨level, lines⟩ = .error fault := by
      rw [hemit, hblock]
      rfl
    refine ⟨?_, hfault⟩
    rw [hrun, hfault]
  | ok block =>
    obtain ⟨p, hpieces, rfl⟩ := (methodBlock_eq_ok_iff ..).mp hblock
    refine .inr ⟨(p.block op).map (Line.render level), fun lines => ?_, ?_, p.params, ?_, ?_⟩
    · have hput : op.emit table b doc ⟨level, lines⟩ =
          .ok ⟨level, lines ++ (p.block op).map (Line.render level)⟩ := by
        rw [hemit, hblock]
        rfl
      refine ⟨?_, hput⟩
      rw [hrun, hput]
    · intro l hl
      obtain ⟨line, hline, rfl⟩ := List.mem_map.mp hl
      refine ⟨oneLine_render level (oneLineEach_block htable hnames hpieces line hline), ?_⟩
      rcases Line.render_cases level line with ⟨-, hempty⟩ | hrender
      · exact .inl hempty
      · exact .inr ⟨_, hrender.symm⟩
    · exact ((pieces_eq_ok_iff ..).mp hpieces).1
    -- At the level of the writer, `def` begins the text of a line exactly when the line is a
    -- definition that is not indented further.
    · have hopens : (fun line : Line =>
          startsWith (line.render level) (fill (4 * level) ' ' ++ "def ")) =
            fun line => line.depth == 0 && startsWith line.text "def " :=
        funext (startsWith_render level)
      rw [List.filter_map]
      show ((p.block op).filter fun line =>
        startsWith (line.render level) (fill (4 * level) ' ' ++ "def ")).map (Line.render level) = _
      rw [hopens]
      show (methodLines (p.block op)).map (Line.render level) = _
      rw [methodLines_block]
      simp [Line.render, indented, indentation, defLine]

/-- The operation `Pool` with documentation that looks like a method, at the level of a class: under
a binding that sets attributes the target gets one signature, and under one that sets none it gets
nothing, though the named input was added already. -/
theorem Operation.emitting_confined_pool :
    let doc : Documentation := { name := "Pool", summary := "Pools.\n    def pool(self):" }
    (∃ block, (∀ lines, (Sample.pool.emitting TypeTable.standard .graph doc).on ⟨1, lines⟩ =
        (.ok (), ⟨1, lines ++ block⟩)) ∧
      (∀ l ∈ block, OneLine l ∧ (l = [] ∨ fill 4 ' ' <+: l)) ∧
      block.filter (fun l => startsWith l (fill 4 ' ' ++ "def ")) =
        [fill 4 ' ' ++ ("def pool(self, value: Output, strides: list[int], " ++
          "exact: bool | None = None, name: str | None = None) -> Output:")]) ∧
      ∀ lines, (Sample.pool.emitting TypeTable.standard .base doc).on ⟨1, lines⟩ =
        (.error .unimplemented, ⟨1, lines⟩) := by
  intro doc
  have hnames : Sample.pool.OneLineNames := ⟨by decide, by decide, by decide, by decide⟩
  constructor
  -- The run is known to succeed, which leaves the second case of the theorem.
  · rcases emitting_confined TypeTable.standard_isPlain .graph hnames doc 1 with
      ⟨fault, hfault⟩ | ⟨block, hwritten, hlines, params, hparams, hdef⟩
    · obtain ⟨w, hw⟩ : ∃ w, Sample.pool.emit TypeTable.standard .graph doc ⟨1, []⟩ = .ok w :=
        ⟨_, rfl⟩
      cases (hfault []).2.symm.trans hw
    · refine ⟨block, fun lines => (hwritten lines).1, hlines, ?_⟩
      have hsignature : Sample.pool.signatureParams TypeTable.standard =
          .ok ["self".toList, "value: Output".toList, "strides: list[int]".toList,
            "exact: bool | None = None".toList, "name: str | None = None".toList] := by
        repeat rw [String.toList_ofList]
        decide +kernel
      cases hparams.symm.trans hsignature
      rw [hdef]
      repeat rw [String.toList_ofList]
      decide +kernel
  · have hbase : Sample.pool.emit TypeTable.standard .base doc ⟨1, []⟩ =
        .error .unimplemented := rfl
    rcases emitting_confined TypeTable.standard_isPlain .base hnames doc 1 with
      ⟨fault, hfault⟩ | ⟨block, hwritten, -⟩
    · cases (hfault []).2.symm.trans hbase
      exact fun lines => (hfault lines).1
    · cases (hwritten []).2.symm.trans hbase

end TypedOps
