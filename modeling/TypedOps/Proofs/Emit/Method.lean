import TypedOps.Emit.Method
import TypedOps.Proofs.Support.Except

/-!
# `TypedOps.Proofs.Emit.Method`: the pieces of a method

`Operation.methodBlock` asks four things that can fail: the parameters, the
docstring, the attribute setters and the finishing statements. `Operation.pieces`
collects their answers and `Pieces.block` puts the method together from them, so
`methodBlock_eq_map` splits every question about a method into one about four
fallible pieces and one about a plain list of lines. `methodBlock_eq_ok_iff` is the
inversion that later proofs start from.

`methodLines_block` reads the block back: whatever the names are, exactly one of
its lines opens a method.
-/

set_option autoImplicit false

namespace TypedOps

namespace Operation

open Naming (parameter)

/-- What the parts of a method that may fail come to: parameters, docstring, setters and finishing
statements. The rest of `methodBlock` is fixed by the operation. -/
structure Pieces where
  params : List Text
  docLines : List Text
  setters : List Line
  finish : List Line

/-- The `Pieces` of a method, in the order in which a fault in one of them ends the others. -/
def pieces (table : TypeTable) (b : Binding) (op : Operation) (doc : Documentation) :
    Except EmitFault Pieces := do
  let params ← op.signatureParams table
  let docLines ← (docstringLines op doc).mapError .badDefault
  let setters ← op.settersBlock table b
  let finish ← b.finishOperation op.name
  return ⟨params, docLines, setters, finish⟩

/-- The statements of a method behind its docstring, with the setters and the finishing statements
of `Pieces` in their places. -/
def Pieces.body (op : Operation) (p : Pieces) : List Line :=
  Binding.newDescription op.name ++
    (op.inputs.flatMap (fun a => Binding.addInput (parameter a.name) a.isList) ++
      (Binding.addControlInputs ++
        (p.setters ++ (p.finish ++ (op.outputsBlock ++ [op.returnLine])))))

/-- The method put together from its `Pieces`, with the named tuple of its outputs in front. -/
def Pieces.block (op : Operation) (p : Pieces) : List Line :=
  op.outputsClassBlock ++
    op.defLine p.params :: (deeper (docstringBlock p.docLines) ++ deeper (p.body op))

/-- Making a block `deeper` that consists of two is making both deeper. -/
theorem deeper_append (xs ys : List Line) : deeper (xs ++ ys) = deeper xs ++ deeper ys := by
  simp [deeper]

/-- The method is put together from its `pieces`, and fails with the same fault where one of them
does. -/
theorem methodBlock_eq_map (table : TypeTable) (b : Binding) (op : Operation)
    (doc : Documentation) :
    op.methodBlock table b doc = (op.pieces table b doc).map (Pieces.block op) := by
  unfold methodBlock pieces
  -- The four steps that can fail are split in the order in which the method takes them.
  cases op.signatureParams table with
  | error fault => rfl
  | ok params =>
    cases (docstringLines op doc).mapError EmitFault.badDefault with
    | error fault => rfl
    | ok docLines =>
      cases op.settersBlock table b with
      | error fault => rfl
      | ok setters =>
        cases b.finishOperation op.name with
        | error fault => rfl
        | ok finish =>
          simp [bind, Except.bind, pure, Except.pure, Except.map, Pieces.block, Pieces.body,
            ← deeper_append, List.append_assoc]

/-- A block is the method of an operation exactly when it is put together from the operation's
`pieces`. -/
theorem methodBlock_eq_ok_iff (table : TypeTable) (b : Binding) (op : Operation)
    (doc : Documentation) (block : List Line) :
    op.methodBlock table b doc = .ok block ↔
      ∃ p, op.pieces table b doc = .ok p ∧ p.block op = block := by
  rw [methodBlock_eq_map, map_eq_ok_iff]

/-- There are `pieces` exactly when every part succeeds, and then they are what the parts give. -/
theorem pieces_eq_ok_iff (table : TypeTable) (b : Binding) (op : Operation)
    (doc : Documentation) (p : Pieces) :
    op.pieces table b doc = .ok p ↔
      op.signatureParams table = .ok p.params ∧ docstringLines op doc = .ok p.docLines ∧
        op.settersBlock table b = .ok p.setters ∧ b.finishOperation op.name = .ok p.finish := by
  obtain ⟨params, docLines, setters, finish⟩ := p
  simp only [pieces, bind_eq_ok_iff, mapError_eq_ok_iff]
  constructor
  · rintro ⟨params', hparams, docLines', hdocLines, setters', hsetters, finish', hfinish, h⟩
    cases h
    exact ⟨hparams, hdocLines, hsetters, hfinish⟩
  · rintro ⟨hparams, hdocLines, hsetters, hfinish⟩
    exact ⟨params, hparams, docLines, hdocLines, setters, hsetters, finish, hfinish, rfl⟩

/-! ### The line that opens the method -/

/-- The lines of a block that open a method of the class the block stands in. A `defLine` is such a
line, and a statement of a body is not, as it stands deeper. -/
def methodLines (block : List Line) : List Line :=
  block.filter fun line => line.depth == 0 && Text.startsWith line.text "def "

/-- No line of a block made `deeper` opens a method, since the opening lines stand at depth zero. -/
theorem methodLines_deeper (block : List Line) : methodLines (deeper block) = [] := by
  simp [methodLines, deeper]

/-- The `outputsClassBlock` opens no method of the class. -/
theorem methodLines_outputsClassBlock (op : Operation) :
    methodLines op.outputsClassBlock = [] := by
  unfold outputsClassBlock
  split
  · rfl
  · rfl
  · rw [methodLines, List.filter_append]
    refine List.append_eq_nil_iff.mpr ⟨?_, methodLines_deeper _⟩
    simp [Text.startsWith, Text.afterStart?]

/-- Exactly one line of a method's block is among its `methodLines`: the `defLine` with its name and
parameters. -/
theorem methodLines_block (op : Operation) (p : Pieces) :
    methodLines (p.block op) = [op.defLine p.params] := by
  have hdef : Text.startsWith (op.defLine p.params).text "def " = true := by
    simp [defLine, Text.startsWith, Text.afterStart?]
  have hbelow := methodLines_deeper (docstringBlock p.docLines ++ p.body op)
  rw [deeper_append] at hbelow
  rw [Pieces.block, methodLines, List.filter_append,
    List.filter_cons_of_pos (by rw [Bool.and_eq_true]; exact ⟨rfl, hdef⟩)]
  rw [show List.filter _ op.outputsClassBlock = [] from methodLines_outputsClassBlock op]
  exact congrArg (op.defLine p.params :: ·) hbelow

end Operation

end TypedOps
