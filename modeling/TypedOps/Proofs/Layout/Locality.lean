import TypedOps.Proofs.Emit.Order
import TypedOps.Proofs.Emit.Untripled
import TypedOps.Proofs.Layout.BlankLines
import TypedOps.Proofs.Layout.DocstringMarks

/-!
# `TypedOps.Proofs.Layout.Locality`: generated text is laid out operation by operation

Laying out reads the whole module from the top, yet each method is laid out as if it
stood alone. A method ends with its `return` line and, when its docstring closes, with
no docstring open: its lines are `Settled`, so the layout starts afresh behind them
(`settled_block`). Texts without triple quotes give docstrings that close.

So the laid out module is a head that only the binding decides, the lines of each
surfaced operation in the order of names, and a fixed tail. The lines of an operation
are `operationLayout`, a function of the operation and of its own documentation.
`format_generateModule` states this for one run; `Compositional` adds what it means
for two runs that differ in one operation.
-/

set_option autoImplicit false

namespace TypedOps

open Layout (ScannedLine Agrees Settled insideAfter isBlankLine isDefinition isClassLine layOut
  layOutBehind scan)
open Operation (Pieces)
open Text

/-! ### A method -/

/-- The `returnLine` begins with a keyword of its own, by whose first code point it is no
definition. -/
theorem exists_returnLine_text (op : Operation) : ∃ rest, op.returnLine.text = 'r' :: rest := by
  rw [Operation.returnLine]
  split <;> simp

/-- No docstring is open behind a `marked` method whose docstring closes. -/
theorem insideAfter_marked {table : TypeTable} {b : Binding}
    {docs : Text → Option Documentation} {w : Operation × Pieces} (htable : table.IsPlain)
    (hnames : w.1.WellNamed) (hw : IsWritten table b docs w) (hcloses : Closes w.2.docLines) :
    insideAfter false ((w.2.marked w.1).map ScannedLine.text) = false := by
  -- An empty line behind the method agrees with its mark only outside docstrings.
  have hend : Agrees false [⟨[], false⟩] := rfl
  have hall := (agrees_marked_append_iff htable hnames hw _).mpr ⟨hcloses, hend⟩
  have hbehind := ((Layout.agrees_append _ _ _).mp hall).2
  exact (Layout.agrees_of_bare_iff (by simp) (by simp) (by simp; decide) _).mp hbehind

/-- The lines of a method whose docstring closes are `Settled`, as its last line is the return. -/
theorem settled_block {table : TypeTable} {b : Binding}
    {docs : Text → Option Documentation} {w : Operation × Pieces} (htable : table.IsPlain)
    (hnames : w.1.WellNamed) (hw : IsWritten table b docs w) (hcloses : Closes w.2.docLines) :
    Settled ((w.2.block w.1).map (Line.render 1)) := by
  have houtside := insideAfter_marked htable hnames hw hcloses
  rw [Pieces.map_text_marked] at houtside
  refine ⟨?_, houtside⟩
  obtain ⟨op, p⟩ := w
  -- The `return` line is the last one, whatever the method is.
  have hblock : ∃ init, p.block op =
      init ++ [{ op.returnLine with depth := op.returnLine.depth + 1 }] := by
    simp only [Pieces.block, Pieces.body, Operation.deeper_append, ← List.append_assoc,
      ← List.cons_append]
    exact ⟨_, rfl⟩
  obtain ⟨init, hinit⟩ := hblock
  obtain ⟨rest, hrest⟩ := exists_returnLine_text op
  have hletter : isBlank 'r' = false := by decide
  have hindent : ∀ c ∈ fill (4 * ((1 : Int) + ((op.returnLine.depth + 1 : Nat) : Int)).toNat) ' ',
      isBlank c = true := by
    intro c hc
    rw [List.eq_of_mem_replicate hc]
    decide
  obtain ⟨stripped, hstripped⟩ := exists_strip_eq hindent hletter rest
  refine ⟨init.map (Line.render 1), _, by rw [hinit, List.map_append]; rfl, ?_⟩
  have hline : Line.render 1 { op.returnLine with depth := op.returnLine.depth + 1 } =
      fill (4 * ((1 : Int) + ((op.returnLine.depth + 1 : Nat) : Int)).toNat) ' ' ++
        'r' :: rest := by
    rw [Line.render, indented, hrest]
    rfl
  rw [hline]
  exact Layout.settles_of_strip hstripped (by decide) (by decide)

/-! ### The module -/

/-- The lines in front of the methods: the `importLines` and the opening of the class. -/
def headLines (b : Binding) : List Text :=
  (b.importLines.map fun t => ({ text := t } : Line)).map (Line.render 0) ++
    containerOpening.map (Line.render 0)

/-- The lines in front of the methods, put through `layOut`. -/
def headLayout (b : Binding) : List Text := layOut (headLines b)

/-- The laid out lines behind the methods, which are the same in every module whatever the
`Binding`. -/
def tailLayout : List Text := [[], [], "__all__ = [\"GraphOps\"]", []]

/-- The lines in front of the methods are `Settled`: they end with the closing quotes of the
docstring of the class. -/
theorem settled_headLines (b : Binding) : Settled (headLines b) := by
  have himports := insideAfter_asCode 0 (isCode_importLines b) false
  have hopening := insideAfter_markedOpening
  rw [map_text_asCode] at himports
  rw [map_text_markedOpening] at hopening
  refine ⟨?_, ?_⟩
  -- The last line of the opening is the one with the quotes, and it is not blank.
  · have hclosing : containerOpening =
        containerOpening.dropLast ++ [{ depth := 1, text := tripleQuote }] := by
      rw [containerOpening, containerDocstring]
      repeat rw [String.toList_ofList]
      decide
    refine ⟨(b.importLines.map fun t => ({ text := t } : Line)).map (Line.render 0) ++
      containerOpening.dropLast.map (Line.render 0),
      Line.render 0 { depth := 1, text := tripleQuote }, ?_, by decide⟩
    rw [headLines, hclosing, List.map_append, List.append_assoc, List.dropLast_concat]
    rfl
  · rw [headLines, Layout.insideAfter_append, himports, hopening]

/-- The lines behind the methods are laid out as `tailLayout`. -/
theorem layOutBehind_closing :
    layOutBehind (containerClosing.map (Line.render 0) ++ [[]]) = tailLayout := by
  decide

/-- A module whose docstrings all close is laid out by `format` method by method, between its head
and its tail. -/
theorem format_moduleCode {table : TypeTable} {b : Binding}
    {docs : Text → Option Documentation} {written : List (Operation × Pieces)}
    (htable : table.IsPlain) (hnames : ∀ w ∈ written, w.1.WellNamed)
    (hwritten : ∀ w ∈ written, IsWritten table b docs w)
    (hcloses : ∀ w ∈ written, Closes w.2.docLines) :
    Layout.format (moduleCode b (writtenBlocks written)) =
      unlines (headLayout b ++
        (written.flatMap (fun w => layOutBehind ((w.2.block w.1).map (Line.render 1))) ++
          tailLayout)) := by
  -- The lines of the module are a settled head, settled blocks and the tail, and each of
  -- them is laid out behind lines that leave nothing open.
  have hsettled : ∀ w ∈ written, Settled ((w.2.block w.1).map (Line.render 1)) := fun w hw =>
    settled_block htable (hnames w hw) (hwritten w hw) (hcloses w hw)
  have hmethods : (deeper (writtenBlocks written).flatten).map (Line.render 0) =
      written.flatMap fun w => (w.2.block w.1).map (Line.render 1) := by
    rw [map_render_deeper, List.map_flatten, writtenBlocks, List.map_map]
    rfl
  have hlines : lines (moduleCode b (writtenBlocks written)) = headLines b ++
      (written.flatMap (fun w => (w.2.block w.1).map (Line.render 1)) ++
        (containerClosing.map (Line.render 0) ++ [[]])) := by
    rw [lines_moduleCode htable hnames hwritten, map_text_markedModule, ← hmethods]
    simp only [moduleLines, headLines, List.map_append, List.append_assoc]
  show unlines (layOut (lines (moduleCode b (writtenBlocks written)))) = _
  rw [hlines, Layout.layOut_append (settled_headLines b), Layout.layOutBehind_flatMap hsettled,
    layOutBehind_closing]
  rfl

/-- The laid out lines of an operation with the given documentation, none if there is a
`skipReason?`. -/
def operationLayout (table : TypeTable) (b : Binding) (op : Operation)
    (doc : Option Documentation) : List Text :=
  match op.skipReason? table doc, op.methodBlock table b (doc.getD { name := op.name }) with
  | none, .ok block => layOutBehind (block.map (Line.render 1))
  | _, _ => []

/-- The `operationLayout` of each operation, one after the other. -/
def methodsLayout (table : TypeTable) (b : Binding) (docs : Text → Option Documentation)
    (ops : List Operation) : List Text :=
  ops.flatMap fun op => operationLayout table b op (docs op.name)

/-- A laid out module with the given lines between its head (`headLayout`) and its tail
(`tailLayout`). -/
def moduleLayout (b : Binding) (methods : List Text) : Text :=
  unlines (headLayout b ++ (methods ++ tailLayout))

/-- The `methodsLayout` of two lists of operations is that of the first, with that of the second
behind it. -/
theorem methodsLayout_append (table : TypeTable) (b : Binding)
    (docs : Text → Option Documentation) (xs ys : List Operation) :
    methodsLayout table b docs (xs ++ ys) =
      methodsLayout table b docs xs ++ methodsLayout table b docs ys :=
  List.flatMap_append

/-- The `methodsLayout` of a first operation comes in front of that of the others. -/
theorem methodsLayout_cons (table : TypeTable) (b : Binding)
    (docs : Text → Option Documentation) (op : Operation) (ops : List Operation) :
    methodsLayout table b docs (op :: ops) =
      operationLayout table b op (docs op.name) ++ methodsLayout table b docs ops :=
  List.flatMap_cons

/-- The `methodsLayout` of operations depends on their own documentation only, so other
documentation may change. -/
theorem methodsLayout_congr (table : TypeTable) (b : Binding)
    {docs docs' : Text → Option Documentation} {ops : List Operation}
    (h : ∀ op ∈ ops, docs' op.name = docs op.name) :
    methodsLayout table b docs' ops = methodsLayout table b docs ops :=
  List.flatMap_congr fun op hop => by rw [h op hop]

/-- Operations that are left out have no laid out lines, so it is enough to look at the `surfaced`
ones. -/
theorem methodsLayout_surfaced (table : TypeTable) (b : Binding)
    (docs : Text → Option Documentation) (ops : List Operation) :
    methodsLayout table b docs (surfaced table docs ops) = methodsLayout table b docs ops := by
  induction ops with
  | nil => rfl
  | cons op ops ih =>
    rw [methodsLayout_cons, ← ih]
    cases hreason : op.skipReason? table (docs op.name) with
    | none => rw [surfaced_cons_of_none table docs hreason, methodsLayout_cons]
    | some reason =>
      rw [surfaced_cons_of_some table docs hreason, operationLayout, hreason]
      rfl

/-- The `operationLayout` of a written operation is the laid out lines of its block. -/
theorem operationLayout_of_isWritten {table : TypeTable} {b : Binding}
    {docs : Text → Option Documentation} {w : Operation × Pieces}
    (hsurfaced : w.1.skipReason? table (docs w.1.name) = none)
    (hw : IsWritten table b docs w) :
    operationLayout table b w.1 (docs w.1.name) =
      layOutBehind ((w.2.block w.1).map (Line.render 1)) := by
  obtain ⟨doc, hdoc, hp⟩ := hw
  have hblock := (Operation.methodBlock_eq_ok_iff table b w.1 doc _).mpr ⟨w.2, hp, rfl⟩
  rw [operationLayout, hsurfaced, hdoc, Option.getD_some, hblock]

/-- Operations and documentation in which every operation is `WellNamed` and every text is
`Untripled`. -/
structure CleanInput (ops : List Operation) (docs : Text → Option Documentation) : Prop where
  names : ∀ op ∈ ops, op.WellNamed
  operations : ∀ op ∈ ops, op.Untripled
  documentation : ∀ name doc, docs name = some doc → doc.Untripled

/-- What `generateModule` gives for clean input is made of the methods of given operations that are
not left out, with docstrings that close. -/
theorem written_of_cleanInput {b : Binding} {ops : List Operation}
    {docs : Text → Option Documentation} {warnings : List Warning} {m : GeneratedModule}
    (hclean : CleanInput ops docs)
    (h : generateModule TypeTable.standard b ops docs = (warnings, .ok m)) :
    ∃ written, written.map Prod.fst = surfaced TypeTable.standard docs (sortedByName ops) ∧
      m.code = moduleCode b (writtenBlocks written) ∧
      ∀ w ∈ written, w.1 ∈ ops ∧ w.1.skipReason? TypeTable.standard (docs w.1.name) = none ∧
        IsWritten TypeTable.standard b docs w ∧ Closes w.2.docLines := by
  obtain ⟨written, hops, hwritten, -, hcode⟩ := written_of_generateModule _ b docs h
  refine ⟨written, hops, hcode, fun w hw => ?_⟩
  have hmem : w.1 ∈ surfaced TypeTable.standard docs (sortedByName ops) := by
    rw [← hops]
    exact List.mem_map_of_mem hw
  have hgiven : w.1 ∈ ops := mem_of_mem_surfaced _ docs hmem
  -- Without triple quotes in the texts there is no stray run, and every docstring closes.
  obtain ⟨doc, hdoc, hp⟩ := hwritten w hw
  obtain ⟨-, hdocLines, -, -⟩ := (Operation.pieces_eq_ok_iff _ b w.1 doc w.2).mp hp
  have huntripled := Operation.tripleQuotes_of_mem_docstringLines (hclean.names w.1 hgiven)
    (hclean.operations w.1 hgiven) (hclean.documentation _ doc hdoc) hdocLines
  exact ⟨hgiven, by simpa using (List.mem_filter.mp hmem).2, hwritten w hw,
    closes_of_no_strays fun l hl => strayRuns_of_tripleQuotes (huntripled l hl)⟩

/-- A module generated from clean input is laid out by `format` operation by operation. -/
theorem format_generateModule {b : Binding} {ops : List Operation}
    {docs : Text → Option Documentation} {warnings : List Warning} {m : GeneratedModule}
    (hclean : CleanInput ops docs)
    (h : generateModule TypeTable.standard b ops docs = (warnings, .ok m)) :
    Layout.format m.code =
      moduleLayout b (methodsLayout TypeTable.standard b docs (sortedByName ops)) := by
  obtain ⟨written, hops, hcode, hwritten⟩ := written_of_cleanInput hclean h
  have hblocks : written.flatMap
        (fun w => layOutBehind ((w.2.block w.1).map (Line.render 1))) =
      methodsLayout TypeTable.standard b docs (sortedByName ops) := by
    rw [← methodsLayout_surfaced, ← hops, methodsLayout, List.flatMap_map]
    refine List.flatMap_congr fun w hw => ?_
    obtain ⟨-, hsurfaced, hpieces, -⟩ := hwritten w hw
    exact (operationLayout_of_isWritten hsurfaced hpieces).symm
  rw [hcode, format_moduleCode TypeTable.standard_isPlain
      (fun w hw => hclean.names w.1 (hwritten w hw).1) (fun w hw => (hwritten w hw).2.2.1)
      (fun w hw => (hwritten w hw).2.2.2), hblocks, moduleLayout]

/-! ### One operation more, or other documentation -/

/-- What a module is laid out from, `operationLayout` by `operationLayout`, and what stays in the
layout when one operation is added or documented differently. -/
structure Compositional (b : Binding) (ops : List Operation)
    (docs : Text → Option Documentation) (m : GeneratedModule) : Prop where
  /-- The emitted operations stand in the order of the report. -/
  emitted : m.report.emitted =
    (surfaced TypeTable.standard docs (sortedByName ops)).map (·.name)
  /-- Each emitted operation has a block of lines, between the head and the tail. -/
  blocks : Layout.format m.code = moduleLayout b
    (methodsLayout TypeTable.standard b docs (surfaced TypeTable.standard docs (sortedByName ops)))
  /-- Each block is the layout of the lines that the operation's method alone has. -/
  block : ∀ op ∈ surfaced TypeTable.standard docs (sortedByName ops), ∃ doc lines,
    docs op.name = some doc ∧ op.methodBlock TypeTable.standard b doc = .ok lines ∧
      operationLayout TypeTable.standard b op (docs op.name) =
        layOutBehind (lines.map (Line.render 1))
  /-- Another operation inserts its own lines and changes no other. Read from the larger
  module to the smaller one, taking an operation out removes no lines but its own. -/
  inserted : ∀ left right op warnings m', ops = left ++ right →
    CleanInput (left ++ op :: right) docs →
    generateModule TypeTable.standard b (left ++ op :: right) docs = (warnings, .ok m') →
    ∃ before after, sortedByName ops = before ++ after ∧
      Layout.format m.code = moduleLayout b (methodsLayout TypeTable.standard b docs before ++
        methodsLayout TypeTable.standard b docs after) ∧
      Layout.format m'.code = moduleLayout b (methodsLayout TypeTable.standard b docs before ++
        (operationLayout TypeTable.standard b op (docs op.name) ++
          methodsLayout TypeTable.standard b docs after))
  /-- Other documentation for a name only changes the lines of the operations that bear
  the name. -/
  redocumented : ∀ name docs' warnings m', (∀ n, n ≠ name → docs' n = docs n) →
    CleanInput ops docs' →
    generateModule TypeTable.standard b ops docs' = (warnings, .ok m') →
    ∃ before after, sortedByName ops = before ++ (ops.filter (·.name == name) ++ after) ∧
      Layout.format m.code = moduleLayout b (methodsLayout TypeTable.standard b docs before ++
        (methodsLayout TypeTable.standard b docs (ops.filter (·.name == name)) ++
          methodsLayout TypeTable.standard b docs after)) ∧
      Layout.format m'.code = moduleLayout b (methodsLayout TypeTable.standard b docs before ++
        (methodsLayout TypeTable.standard b docs' (ops.filter (·.name == name)) ++
          methodsLayout TypeTable.standard b docs after))

/-- Generated text is compositional through `format`: the layout of a module is put together from
its operations, and none of them changes the lines of another. -/
theorem format_generateModule_compositional (b : Binding) (ops : List Operation)
    (docs : Text → Option Documentation) (warnings : List Warning) (m : GeneratedModule)
    (hclean : CleanInput ops docs)
    (h : generateModule TypeTable.standard b ops docs = (warnings, .ok m)) :
    Compositional b ops docs m := by
  have hformat := format_generateModule hclean h
  obtain ⟨written, hops, hwritten, hemitted, -⟩ := written_of_generateModule _ b docs h
  refine ⟨hemitted, by rw [hformat, methodsLayout_surfaced], ?_, ?_, ?_⟩
  · intro op hop
    have hreason : op.skipReason? TypeTable.standard (docs op.name) = none := by
      simpa using (List.mem_filter.mp hop).2
    rw [← hops] at hop
    obtain ⟨w, hw, rfl⟩ := List.mem_map.mp hop
    have hlayout := operationLayout_of_isWritten hreason (hwritten w hw)
    obtain ⟨doc, hdoc, hp⟩ := hwritten w hw
    exact ⟨doc, w.2.block w.1, hdoc,
      (Operation.methodBlock_eq_ok_iff _ b w.1 doc _).mpr ⟨w.2, hp, rfl⟩, hlayout⟩
  · intro left right op warnings' m' hsplit hclean' h'
    subst hsplit
    -- Both runs take the other operations in the same order.
    obtain ⟨before, after, hsorted, hsorted'⟩ := sortedByName_insert left right op
    refine ⟨before, after, hsorted, ?_, ?_⟩
    · rw [hformat, hsorted, methodsLayout_append]
    · rw [format_generateModule hclean' h', hsorted', methodsLayout_append, methodsLayout_cons]
  · intro name docs' warnings' m' hother hclean' h'
    -- The operations around those of the name have the documentation they had.
    obtain ⟨before, after, hsorted, hnames⟩ := exists_sortedByName_eq ops name
    have hbefore := methodsLayout_congr TypeTable.standard b fun op hop =>
      hother op.name (hnames op (List.mem_append_left after hop))
    have hafter := methodsLayout_congr TypeTable.standard b fun op hop =>
      hother op.name (hnames op (List.mem_append_right before hop))
    refine ⟨before, after, hsorted, ?_, ?_⟩
    · rw [hformat, hsorted, methodsLayout_append, methodsLayout_append]
    · rw [format_generateModule hclean' h', hsorted, methodsLayout_append,
        methodsLayout_append, hbefore, hafter]

/-- The sample of every kind of operation is `CleanInput`, with names and documentation as a catalog
has them. -/
theorem cleanInput_sample : CleanInput Sample.operations Sample.docs := by
  -- The three parts are the names, the texts in the signatures and the texts of the documentation.
  refine ⟨fun op hop => ?_, fun op hop => ?_, fun name doc hdoc => ?_⟩
  · have hnames : ∀ op ∈ Sample.operations, IsIdentifier op.name ∧
        (∀ a ∈ op.inputs, IsIdentifier a.name) ∧ (∀ a ∈ op.outputs, IsIdentifier a.name) ∧
        ∀ a ∈ op.attributes, IsIdentifier a.name := by
      decide
    obtain ⟨hname, hinputs, houtputs, hattributes⟩ := hnames op hop
    exact ⟨hname, hinputs, houtputs, hattributes⟩
  · have hfree : ∀ op ∈ Sample.operations, tripleQuotes op.deprecationExplanation = 0 ∧
        ∀ a ∈ op.attributes, a.defaultValue.strings = [] := by
      decide
    obtain ⟨hexplanation, hdefaults⟩ := hfree op hop
    refine ⟨(untripled_iff _).mpr hexplanation, fun a ha t ht => ?_⟩
    rw [hdefaults a ha] at ht
    cases ht
  · rw [Sample.docs] at hdoc
    split at hdoc
    · next hname =>
      subst hname
      cases hdoc
      exact ⟨(untripled_iff _).mpr (by decide), (untripled_iff _).mpr rfl, by simp, by simp,
        by simp, (untripled_iff _).mpr rfl⟩
    · cases hdoc

/-- The module that `generateModule` gives for the sample is compositional, with two methods of one
name and three operations left out. -/
theorem format_generateModule_compositional_sample :
    CleanInput Sample.operations Sample.docs ∧
      ∃ warnings m,
        generateModule TypeTable.standard .graph Sample.operations Sample.docs =
          (warnings, .ok m) ∧
        m.report.emitted = ["Add".toList, "Add".toList] ∧
        Compositional .graph Sample.operations Sample.docs m := by
  obtain ⟨warnings, m, hrun, hemitted⟩ : ∃ warnings m,
      generateModule TypeTable.standard .graph Sample.operations Sample.docs =
        (warnings, .ok m) ∧
      m.report.emitted = ["Add".toList, "Add".toList] := by
    rw [generateModule, Sample.sortedByName_operations]
    exact ⟨_, _, rfl, rfl⟩
  exact ⟨cleanInput_sample, warnings, m, hrun, hemitted,
    format_generateModule_compositional .graph Sample.operations Sample.docs warnings m
      cleanInput_sample hrun⟩

end TypedOps
