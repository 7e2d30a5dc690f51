import TypedOps.Proofs.Emit.Accounting
import TypedOps.Proofs.Emit.LineFeeds
import TypedOps.Proofs.Layout.Scan

/-!
# `TypedOps.Proofs.Emit.Marks`: which lines of a module are docstrings

The generator knows which of the lines it writes belong to a docstring: those of the
class that holds the methods, the one of each named tuple, and those of each method.
`markedModule` is the module with every line so marked. It is built from the same
pieces as the module, and says nothing about quotes.

* `written_of_generateModule`: a generated module is made from the pieces of its
  methods, one for each surfaced operation.
* `lines_moduleCode`: cut into lines, its text is the marked module without the marks.
  This is where names must be identifiers: none of them may break a line.
-/

set_option autoImplicit false

namespace TypedOps

open Layout (ScannedLine)
open Operation (Pieces)
open Text

/-! ### Rendered lines -/

/-- A line has the same `tripleQuotes` when it is rendered: indentation adds none and takes none
away. -/
theorem tripleQuotes_render (level : Int) (line : Line) :
    tripleQuotes (line.render level) = tripleQuotes line.text := by
  rw [Line.render, indented]
  split
  · next hempty => rw [List.isEmpty_iff.mp hempty]
  · refine tripleQuotes_append_of_not_mem (fun hmem => ?_) line.text
    exact absurd (List.eq_of_mem_replicate hmem) (by decide)

/-- A line that has `OneLine` still has it when it is rendered, as indentation does not break it in
two. -/
theorem oneLine_render (level : Int) {line : Line} (h : OneLine line.text) :
    OneLine (line.render level) := by
  rw [Line.render, indented]
  split
  · simp [OneLine]
  · intro hmem
    rcases List.mem_append.mp hmem with hmem | hmem
    · exact absurd (List.eq_of_mem_replicate hmem) (by decide)
    · exact h hmem

/-- A block made `deeper` is rendered as the block itself is one level further in. -/
theorem map_render_deeper_at (level : Int) (block : List Line) :
    (deeper block).map (Line.render level) = block.map (Line.render (level + 1)) := by
  rw [deeper, List.map_map]
  refine List.map_congr_left fun line _ => ?_
  have hlevel : level + ((line.depth + 1 : Nat) : Int) = level + 1 + (line.depth : Int) := by omega
  simp only [Function.comp_apply, Line.render]
  rw [hlevel]

/-- At the margin, a block made `deeper` is rendered as the block itself is at level one. -/
theorem map_render_deeper (block : List Line) :
    (deeper block).map (Line.render 0) = block.map (Line.render 1) :=
  map_render_deeper_at 0 block

/-! ### Marked lines -/

/-- A block of code at a level, as lines that `scan` marks as outside of any docstring. -/
def asCode (level : Int) (block : List Line) : List ScannedLine :=
  block.map fun line => ⟨line.render level, false⟩

/-- A docstring at a level, as lines that `scan` marks as inside of it. -/
def asDocstring (level : Int) (block : List Line) : List ScannedLine :=
  block.map fun line => ⟨line.render level, true⟩

/-- Without its marks, a block `asCode` is the rendered block. -/
theorem map_text_asCode (level : Int) (block : List Line) :
    (asCode level block).map ScannedLine.text = block.map (Line.render level) := by
  simp [asCode]

/-- Without its marks, a block `asDocstring` is the rendered block. -/
theorem map_text_asDocstring (level : Int) (block : List Line) :
    (asDocstring level block).map ScannedLine.text = block.map (Line.render level) := by
  simp [asDocstring]

namespace Operation

/-- The `outputsClassBlock` with its marks: its second line is its docstring, all others are code.
-/
def markedOutputsClass (op : Operation) : List ScannedLine :=
  match op.outputsClassBlock with
  | opening :: docstring :: fields =>
    asCode 1 [opening] ++ (asDocstring 1 [docstring] ++ asCode 1 fields)
  | block => asCode 1 block

/-- A method inside the class with its marks: the named tuple (`markedOutputsClass`), the opening
line, the docstring and the body. -/
def Pieces.marked (op : Operation) (p : Pieces) : List ScannedLine :=
  op.markedOutputsClass ++ (asCode 1 [op.defLine p.params] ++
    (asDocstring 1 (deeper (docstringBlock p.docLines)) ++ asCode 1 (deeper (p.body op))))

/-- Without its marks, the `markedOutputsClass` is the block of the named tuple inside the class. -/
theorem map_text_markedOutputsClass (op : Operation) :
    op.markedOutputsClass.map ScannedLine.text =
      op.outputsClassBlock.map (Line.render 1) := by
  rw [markedOutputsClass]
  split
  · next hblock =>
    rw [hblock]
    simp [asCode, asDocstring]
  · exact map_text_asCode 1 _

/-- Without its marks, a `marked` method is its block inside the class. -/
theorem Pieces.map_text_marked (op : Operation) (p : Pieces) :
    (p.marked op).map ScannedLine.text = (p.block op).map (Line.render 1) := by
  simp only [Pieces.marked, List.map_append, map_text_markedOutputsClass, map_text_asCode,
    map_text_asDocstring, Pieces.block, List.map_cons, List.map_nil]
  rfl

end Operation

/-- The opening of the class with its marks: all of `containerOpening` behind its first line is a
docstring. -/
def markedOpening : List ScannedLine :=
  asCode 0 (containerOpening.take 1) ++ asDocstring 0 (containerOpening.drop 1)

/-- Without its marks, the `markedOpening` is the rendered block that opens the class. -/
theorem map_text_markedOpening :
    markedOpening.map ScannedLine.text = containerOpening.map (Line.render 0) := by
  rw [markedOpening, List.map_append, map_text_asCode, map_text_asDocstring, ← List.map_append,
    List.take_append_drop]

/-- The lines of a module with the given methods, each `Pieces.marked` as code or docstring, and the
empty one behind its last line feed. -/
def markedModule (b : Binding) (written : List (Operation × Pieces)) : List ScannedLine :=
  asCode 0 (b.importLines.map fun t => { text := t }) ++ (markedOpening ++
    (written.flatMap (fun w => w.2.marked w.1) ++ (asCode 0 containerClosing ++ [⟨[], false⟩])))

/-- The blocks of the methods, put together from their pieces by `Pieces.block`. -/
def writtenBlocks (written : List (Operation × Pieces)) : List (List Line) :=
  written.map fun w => w.2.block w.1

/-- Without its marks, the `markedModule` is the lines of the module. -/
theorem map_text_markedModule (b : Binding) (written : List (Operation × Pieces)) :
    (markedModule b written).map ScannedLine.text =
      (moduleLines b (writtenBlocks written)).map (Line.render 0) ++ [[]] := by
  have hmethods : (written.flatMap fun w => w.2.marked w.1).map ScannedLine.text =
      (deeper (writtenBlocks written).flatten).map (Line.render 0) := by
    rw [map_render_deeper, writtenBlocks]
    induction written with
    | nil => rfl
    | cons w written ih =>
      rw [List.flatMap_cons, List.map_append, ih, Pieces.map_text_marked, List.map_cons,
        List.flatten_cons, List.map_append]
  simp only [markedModule, moduleLines, List.map_append, hmethods, map_text_markedOpening,
    map_text_asCode, List.append_assoc]
  rfl

/-! ### The text of a module -/

section
variable (table : TypeTable) (b : Binding) (docs : Text → Option Documentation)

/-- An operation with documentation, together with the `Pieces` of its method. -/
def IsWritten (w : Operation × Pieces) : Prop :=
  ∃ doc, docs w.1.name = some doc ∧ w.1.pieces table b doc = .ok w.2

/-- Blocks written for operations are made from pieces that `IsWritten` holds of. -/
theorem exists_written {ops : List Operation} {blocks : List (List Line)}
    (h : List.Forall₂ (WrittenAs table b docs) ops blocks) :
    ∃ written, written.map Prod.fst = ops ∧ writtenBlocks written = blocks ∧
      ∀ w ∈ written, IsWritten table b docs w := by
  -- A block comes without its pieces, but a method is only ever put together from some.
  induction h with
  | nil => exact ⟨[], rfl, rfl, by simp⟩
  | cons hfirst _ ih =>
    obtain ⟨written, rfl, rfl, hwritten⟩ := ih
    obtain ⟨doc, hdoc, hblock, -⟩ := hfirst
    obtain ⟨p, hp, rfl⟩ := (Operation.methodBlock_eq_ok_iff _ _ _ _ _).mp hblock
    refine ⟨(_, p) :: written, rfl, rfl, fun w hw => ?_⟩
    rcases List.mem_cons.mp hw with rfl | hw
    · exact ⟨doc, hdoc, hp⟩
    · exact hwritten w hw

/-- A module of `generateModule` is made from the pieces of one method for each surfaced operation,
in the order of names. -/
theorem written_of_generateModule {ops : List Operation} {warnings : List Warning}
    {m : GeneratedModule} (h : generateModule table b ops docs = (warnings, .ok m)) :
    ∃ written, written.map Prod.fst = surfaced table docs (sortedByName ops) ∧
      (∀ w ∈ written, IsWritten table b docs w) ∧
      m.report.emitted = (surfaced table docs (sortedByName ops)).map (·.name) ∧
      m.code = moduleCode b (writtenBlocks written) := by
  obtain ⟨hfault, -, rfl⟩ := (generateModule_eq_ok_iff table b docs ops warnings m).mp h
  have hrun := progress_accounts table b docs (sortedByName ops) hfault
  obtain ⟨written, hops, hblocks, hwritten⟩ := exists_written table b docs hrun.blocks
  exact ⟨written, hops, hwritten, hrun.emitted, by rw [hblocks]⟩

/-- The `surfaced` operations of the sorted list are among those given. -/
theorem mem_of_mem_surfaced {ops : List Operation} {op : Operation}
    (h : op ∈ surfaced table docs (sortedByName ops)) : op ∈ ops :=
  (sortedByName_perm ops).mem_iff.mp (List.mem_filter.mp h).1

end

/-- The `importLines` are code, under every binding. -/
theorem isCode_importLines (b : Binding) :
    IsCodeBlock (b.importLines.map fun t => { text := t }) := by
  -- The lines are written out as characters first: a literal is decoded again at every step.
  have hplain : ∀ t ∈ b.importLines, Plain t := by
    rw [Binding.importLines, Binding.runtimeNames]
    repeat rw [String.toList_ofList]
    cases b <;> decide
  intro line hline
  obtain ⟨t, ht, rfl⟩ := List.mem_map.mp hline
  exact Line.isCode_of_plain (hplain t ht)

/-- The lines of `containerClosing`, behind the class, are code. -/
theorem isCode_containerClosing : IsCodeBlock containerClosing := by
  have hlines : ∀ line ∈ containerClosing, '\n' ∉ line.text ∧ tripleQuotes line.text = 0 := by
    decide
  exact fun line hline => ⟨(hlines line hline).1, (hlines line hline).2⟩

/-- Cut into lines, the text of a module is the `markedModule` without its marks. It is here that
names on one line matter. -/
theorem lines_moduleCode {table : TypeTable} {b : Binding} {docs : Text → Option Documentation}
    {written : List (Operation × Pieces)} (htable : table.IsPlain)
    (hnames : ∀ w ∈ written, w.1.WellNamed)
    (hwritten : ∀ w ∈ written, IsWritten table b docs w) :
    lines (moduleCode b (writtenBlocks written)) =
      (markedModule b written).map ScannedLine.text := by
  have hopening : ∀ line ∈ containerOpening, '\n' ∉ line.text := by
    rw [containerOpening, containerDocstring]
    repeat rw [String.toList_ofList]
    decide
  -- No line may hold a line feed, or cutting the text would not give it back.
  have hmodule : ∀ line ∈ moduleLines b (writtenBlocks written), OneLine line.text := by
    simp only [moduleLines, List.forall_mem_append]
    refine ⟨⟨⟨fun line hline => (isCode_importLines b line hline).oneLine, hopening⟩,
      fun line hline => ?_⟩, fun line hline => (isCode_containerClosing line hline).oneLine⟩
    obtain ⟨above, habove, rfl⟩ := List.mem_map.mp hline
    obtain ⟨block, hblock, habove⟩ := List.mem_flatten.mp habove
    obtain ⟨w, hw, rfl⟩ := List.mem_map.mp hblock
    obtain ⟨doc, -, hpieces⟩ := hwritten w hw
    exact Operation.oneLineEach_block htable (hnames w hw).oneLineNames hpieces above habove
  rw [map_text_markedModule, moduleCode]
  refine lines_unlines_linefeed ?_ ?_
  · simp [moduleLines, containerOpening]
  · intro t ht
    obtain ⟨line, hline, rfl⟩ := List.mem_map.mp ht
    exact oneLine_render 0 (hmodule line hline)

/-- The lines of a generated module, cut out of its text, are those of a `markedModule` with one
method for each surfaced operation. -/
theorem lines_of_generateModule {table : TypeTable} {b : Binding}
    {docs : Text → Option Documentation} {ops : List Operation} {warnings : List Warning}
    {m : GeneratedModule} (htable : table.IsPlain) (hnames : ∀ op ∈ ops, op.WellNamed)
    (h : generateModule table b ops docs = (warnings, .ok m)) :
    ∃ written, written.map Prod.fst = surfaced table docs (sortedByName ops) ∧
      (∀ w ∈ written, w.1.WellNamed) ∧ (∀ w ∈ written, IsWritten table b docs w) ∧
      lines m.code = (moduleLines b (writtenBlocks written)).map (Line.render 0) ++ [[]] := by
  obtain ⟨written, hops, hwritten, -, hcode⟩ := written_of_generateModule table b docs h
  have hwellNamed : ∀ w ∈ written, w.1.WellNamed := by
    intro w hw
    have hmem : w.1 ∈ written.map Prod.fst := List.mem_map_of_mem hw
    rw [hops] at hmem
    exact hnames w.1 (mem_of_mem_surfaced table docs hmem)
  refine ⟨written, hops, hwellNamed, hwritten, ?_⟩
  rw [hcode, lines_moduleCode htable hwellNamed hwritten, map_text_markedModule]

end TypedOps
