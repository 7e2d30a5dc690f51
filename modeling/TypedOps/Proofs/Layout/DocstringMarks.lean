import TypedOps.Proofs.Emit.Marks

/-!
# `TypedOps.Proofs.Layout.DocstringMarks`: when the scanner finds the docstrings

The scanner takes every triple quote for a delimiter. That is right exactly as long as
none is left inside a docstring where it would be taken for one. `Closes` is the exact
condition on the lines of a docstring: each line without a stray run comes behind an
even number of stray runs, and there is an even number of them in all. Without stray
runs this holds (`closes_of_no_strays`).

* `agrees_marked_append_iff`: the step. Scanning a method from outside a docstring
  agrees with its marks, and leads back outside, exactly when its docstring closes.
* `agrees_markedModule_iff`: the run over all methods, by induction on them.

A single stray run is enough to break this: escaping turns five quotes into an escaped
triple with two bare quotes behind it, and the scanner takes the last three for a
delimiter.
-/

set_option autoImplicit false

namespace TypedOps

open Layout (ScannedLine Agrees Enclosed insideAfter scan)
open Operation (Pieces)
open Text

/-- Whether the scanner finds the end of a docstring with the given lines, and no end in front of
it. This depends on the `strayRuns` of the lines alone. -/
structure Closes (docLines : List Text) : Prop where
  /-- A line without a stray run has an even number of them in front of it. -/
  inside : ∀ before line after, docLines = before ++ line :: after → strayRuns line = 0 →
    (before.map strayRuns).sum % 2 = 0
  /-- There is an even number of stray runs in all. -/
  even : (docLines.map strayRuns).sum % 2 = 0

/-- The two conditions of `Closes` in terms of the numbers of stray runs, line by line. -/
theorem closes_iff_counts (docLines : List Text) :
    Closes docLines ↔
      (∀ before after, docLines.map strayRuns = before ++ 0 :: after → before.sum % 2 = 0) ∧
        (docLines.map strayRuns).sum % 2 = 0 := by
  constructor
  · rintro ⟨hinside, heven⟩
    refine ⟨fun before after hsplit => ?_, heven⟩
    obtain ⟨ls, rest, hdocLines, rfl, hrest⟩ := List.map_eq_append_iff.mp hsplit
    obtain ⟨line, ls', rfl, hline, -⟩ := List.map_eq_cons_iff.mp hrest
    exact hinside ls line ls' hdocLines hline
  · rintro ⟨hinside, heven⟩
    refine ⟨fun before line after hsplit hline => ?_, heven⟩
    exact hinside (before.map strayRuns) (after.map strayRuns) (by simp [hsplit, hline])

/-- A docstring without `strayRuns` closes, for escaping left no triple quote in it. -/
theorem closes_of_no_strays {docLines : List Text} (h : ∀ l ∈ docLines, strayRuns l = 0) :
    Closes docLines := by
  have hsum : ∀ ls : List Text, (∀ l ∈ ls, strayRuns l = 0) → (ls.map strayRuns).sum = 0 := by
    intro ls hls
    induction ls with
    | nil => rfl
    | cons l ls ih =>
      rw [List.map_cons, List.sum_cons, hls l List.mem_cons_self,
        ih fun l' hl' => hls l' (List.mem_cons_of_mem l hl')]
  refine ⟨fun before line after hsplit _ => ?_, by rw [hsum docLines h]⟩
  rw [hsum before fun l hl => h l (by simp [hsplit, hl])]

/-! ### One docstring -/

/-- The `tripleQuotes` of a written docstring, line by line: one for each stray run, and one for
each delimiter. -/
theorem map_tripleQuotes_docstringBlock (first : Text) (rest : List Text) :
    (docstringBlock (first :: rest)).map (fun line => tripleQuotes line.text) =
      (1 + strayRuns first) :: (rest.map strayRuns ++ [1]) := by
  have hquotes : tripleQuotes tripleQuote = 1 := by decide
  simp [docstringBlock, hquotes, tripleQuotes_tripleQuote_append, tripleQuotes_escapedDocLine]

/-- A docstring is enclosed by its delimiters exactly when it `Closes`. -/
theorem enclosed_docstringBlock_iff (docLines : List Text) :
    Enclosed false ((docstringBlock docLines).map fun line => tripleQuotes line.text) ↔
      Closes docLines := by
  cases docLines with
  | nil =>
    have hnil : Closes [] := closes_of_no_strays (by simp)
    have hquotes : tripleQuotes tripleQuote = 1 := by decide
    simp [docstringBlock, hquotes, Enclosed, hnil]
  | cons first rest =>
    -- The opening quotes and the first line's stray runs are counted together.
    have hbit : (false != ((1 + strayRuns first) % 2 == 1)) = (strayRuns first % 2 == 0) := by
      rcases Nat.mod_two_eq_zero_or_one (strayRuns first) with h | h <;>
        simp [Nat.add_mod, h]
    rw [map_tripleQuotes_docstringBlock, Enclosed, hbit, Layout.enclosed_append_one_iff,
      closes_iff_counts, List.map_cons, List.sum_cons]
    constructor
    · rintro ⟨-, hinside, heven⟩
      refine ⟨fun before after hsplit => ?_, heven⟩
      cases before with
      | nil => rfl
      | cons n before =>
        rw [List.cons_append, List.cons.injEq] at hsplit
        rw [← hsplit.1]
        exact hinside before after hsplit.2
    · rintro ⟨hinside, heven⟩
      refine ⟨Or.inr (by omega), fun before after hsplit => ?_, heven⟩
      exact hinside (strayRuns first :: before) after (by rw [hsplit]; rfl)

/-! ### Code and docstrings in turn -/

/-- A block `asCode` leaves the scanner in the state that it finds it in. -/
theorem insideAfter_asCode (level : Int) {block : List Line} (h : IsCodeBlock block)
    (inside : Bool) :
    insideAfter inside ((asCode level block).map ScannedLine.text) = inside := by
  refine Layout.insideAfter_of_bare (fun t ht => ?_) inside
  rw [map_text_asCode] at ht
  obtain ⟨line, hline, rfl⟩ := List.mem_map.mp ht
  rw [tripleQuotes_render]
  exact (h line hline).bare

/-- A block `asCode` agrees with the scanner outside docstrings, and only there. -/
theorem agrees_asCode_iff (level : Int) {block : List Line} (hne : block ≠ [])
    (h : IsCodeBlock block) (inside : Bool) :
    Agrees inside (asCode level block) ↔ inside = false := by
  refine Layout.agrees_of_bare_iff (by simpa [asCode] using hne) ?_ ?_ inside <;>
    intro line hline <;> obtain ⟨above, habove, rfl⟩ := List.mem_map.mp hline
  · rfl
  · exact (tripleQuotes_render level above).trans (h above habove).bare

/-- The scanner passes a block `asCode` from outside a docstring, and what matters is the rest. -/
theorem agrees_asCode_append_iff (level : Int) {block : List Line} (h : IsCodeBlock block)
    (rest : List ScannedLine) :
    Agrees false (asCode level block ++ rest) ↔ Agrees false rest := by
  cases block with
  | nil => rfl
  | cons line block =>
    rw [Layout.agrees_append, agrees_asCode_iff level (List.cons_ne_nil _ _) h,
      insideAfter_asCode level h, eq_self, true_and]

/-- A block `asDocstring` agrees with the scanner and leads back outside exactly when it is
enclosed. -/
theorem agrees_asDocstring_iff (level : Int) (docstring : List Line) :
    Agrees false (asDocstring level docstring) ∧
        insideAfter false ((asDocstring level docstring).map ScannedLine.text) = false ↔
      Enclosed false (docstring.map fun line => tripleQuotes line.text) := by
  have hmark : ∀ line ∈ asDocstring level docstring, line.inDocstring = true := by
    intro line hline
    obtain ⟨above, -, rfl⟩ := List.mem_map.mp hline
    rfl
  rw [Layout.agrees_and_outside_iff hmark]
  simp only [asDocstring, List.map_map, Function.comp_def, tripleQuotes_render]

/-- A block `asDocstring` with code behind it agrees exactly when it is enclosed and the rest
agrees. Code agrees only from outside, so the docstring must have led back there. -/
theorem agrees_asDocstring_append_iff (level : Int) (docstring : List Line)
    {block : List Line} (hne : block ≠ []) (h : IsCodeBlock block) (rest : List ScannedLine) :
    Agrees false (asDocstring level docstring ++ (asCode level block ++ rest)) ↔
      Enclosed false (docstring.map fun line => tripleQuotes line.text) ∧ Agrees false rest := by
  rw [Layout.agrees_append, Layout.agrees_append, agrees_asCode_iff level hne h,
    insideAfter_asCode level h, ← agrees_asDocstring_iff level]
  constructor
  · rintro ⟨hdocstring, houtside, hrest⟩
    rw [houtside] at hrest
    exact ⟨⟨hdocstring, houtside⟩, hrest⟩
  · rintro ⟨⟨hdocstring, houtside⟩, hrest⟩
    refine ⟨hdocstring, houtside, ?_⟩
    rw [houtside]
    exact hrest

/-! ### Methods -/

/-- The scanner passes the `markedOutputsClass`: its docstring opens and closes on one line. -/
theorem agrees_markedOutputsClass_append_iff {op : Operation} (hnames : op.WellNamed)
    (rest : List ScannedLine) :
    Agrees false (op.markedOutputsClass ++ rest) ↔ Agrees false rest := by
  rcases Operation.outputsClassBlock_cases hnames with
    hnone | ⟨opening, docstring, fields, hblock, hopening, -, htwo, hfields⟩
  · rw [Operation.markedOutputsClass, hnone]
    rfl
  · have hone : IsCodeBlock [opening] := by simpa using hopening
    rw [Operation.markedOutputsClass, hblock]
    simp only [List.append_assoc]
    rw [agrees_asCode_append_iff 1 hone]
    show Agrees false (⟨docstring.render 1, true⟩ :: (asCode 1 fields ++ rest)) ↔ _
    rw [Layout.agrees_cons, tripleQuotes_render, htwo]
    simpa using agrees_asCode_append_iff 1 hfields rest

/-- The scanner agrees with a method, and is outside again behind it, exactly when the docstring of
the method `Closes`. -/
theorem agrees_marked_append_iff {table : TypeTable} {b : Binding}
    {docs : Text → Option Documentation} {w : Operation × Pieces} (htable : table.IsPlain)
    (hnames : w.1.WellNamed) (hw : IsWritten table b docs w) (rest : List ScannedLine) :
    Agrees false (w.2.marked w.1 ++ rest) ↔ Closes w.2.docLines ∧ Agrees false rest := by
  obtain ⟨op, p⟩ := w
  obtain ⟨doc, -, hp⟩ := hw
  obtain ⟨hparams, -, -, -⟩ := (Operation.pieces_eq_ok_iff table b op doc p).mp hp
  have hdef : IsCodeBlock [op.defLine p.params] := by
    simpa using Operation.isCode_defLine hnames
      (Operation.plain_of_mem_signatureParams htable hnames hparams)
  have hbody : IsCodeBlock (deeper (p.body op)) :=
    (isCodeBlock_deeper _).mpr (Operation.isCode_body hnames hp)
  have hne : deeper (p.body op) ≠ [] := by simp [deeper, Pieces.body, Binding.newDescription]
  have hdepth : (deeper (docstringBlock p.docLines)).map (fun line => tripleQuotes line.text) =
      (docstringBlock p.docLines).map fun line => tripleQuotes line.text := by
    simp [deeper]
  -- The statements behind the docstring hold the closing bit to account: they agree
  -- only from outside.
  simp only [Pieces.marked, List.append_assoc]
  rw [agrees_markedOutputsClass_append_iff hnames, agrees_asCode_append_iff 1 hdef,
    agrees_asDocstring_append_iff 1 _ hne hbody, hdepth, enclosed_docstringBlock_iff]

/-- No docstring is open behind the `markedOpening` of the class. -/
theorem insideAfter_markedOpening :
    insideAfter false (markedOpening.map ScannedLine.text) = false := by
  rw [map_text_markedOpening, containerOpening, containerDocstring]
  repeat rw [String.toList_ofList]
  decide

/-- The scanner passes the `markedOpening` of the class, whatever methods follow. -/
theorem agrees_markedOpening_append_iff (rest : List ScannedLine) :
    Agrees false (markedOpening ++ rest) ↔ Agrees false rest := by
  have hagrees : Layout.scanFrom false (markedOpening.map ScannedLine.text) = markedOpening := by
    rw [markedOpening, containerOpening, containerDocstring]
    repeat rw [String.toList_ofList]
    decide
  rw [Layout.agrees_append, insideAfter_markedOpening]
  exact and_iff_right hagrees

/-- The scanner agrees with a module exactly when every docstring in it `Closes`, by induction over
the methods. -/
theorem agrees_markedModule_iff {table : TypeTable} {b : Binding}
    {docs : Text → Option Documentation} {written : List (Operation × Pieces)}
    (htable : table.IsPlain) (hnames : ∀ w ∈ written, w.1.WellNamed)
    (hwritten : ∀ w ∈ written, IsWritten table b docs w) :
    Agrees false (markedModule b written) ↔ ∀ w ∈ written, Closes w.2.docLines := by
  have hend : Agrees false (asCode 0 containerClosing ++ [⟨[], false⟩]) :=
    (agrees_asCode_append_iff 0 isCode_containerClosing _).mpr rfl
  -- The scanner is outside in front of every method as long as the docstrings before it
  -- close, and at the first that does not the marks are wrong already.
  have hmethods : ∀ ws : List (Operation × Pieces), (∀ w ∈ ws, w.1.WellNamed) →
      (∀ w ∈ ws, IsWritten table b docs w) →
      (Agrees false (ws.flatMap (fun w => w.2.marked w.1) ++
          (asCode 0 containerClosing ++ [⟨[], false⟩])) ↔
        ∀ w ∈ ws, Closes w.2.docLines) := by
    intro ws hws hwrote
    induction ws with
    | nil => simpa using hend
    | cons w ws ih =>
      rw [List.flatMap_cons, List.append_assoc,
        agrees_marked_append_iff htable (hws w List.mem_cons_self)
          (hwrote w List.mem_cons_self),
        ih (fun v hv => hws v (List.mem_cons_of_mem w hv))
          (fun v hv => hwrote v (List.mem_cons_of_mem w hv)),
        List.forall_mem_cons]
  rw [markedModule, agrees_asCode_append_iff 0 (isCode_importLines b),
    agrees_markedOpening_append_iff]
  exact hmethods written hnames hwritten

/-- To `scan` a generated module finds exactly the docstrings the generator wrote if and only if
every docstring closes; and what keeps one from closing are the stray runs of its lines, in which
escaping leaves a triple quote. -/
theorem scan_generateModule_iff (b : Binding) (ops : List Operation)
    (docs : Text → Option Documentation) (warnings : List Warning) (m : GeneratedModule)
    (hnames : ∀ op ∈ ops, op.WellNamed)
    (h : generateModule TypeTable.standard b ops docs = (warnings, .ok m)) :
    (∃ written,
      written.map Prod.fst = surfaced TypeTable.standard docs (sortedByName ops) ∧
      (∀ w ∈ written, IsWritten TypeTable.standard b docs w) ∧
      lines m.code = (markedModule b written).map ScannedLine.text ∧
      (scan (lines m.code) = markedModule b written ↔ ∀ w ∈ written, Closes w.2.docLines)) ∧
    ∀ line, tripleQuote <:+: escapedDocLine line ↔ 0 < strayRuns line := by
  refine ⟨?_, tripleQuote_isInfix_iff⟩
  obtain ⟨written, hops, hwritten, -, hcode⟩ := written_of_generateModule _ b docs h
  have hnamed : ∀ w ∈ written, w.1.WellNamed := by
    intro w hw
    have hmem : w.1 ∈ written.map Prod.fst := List.mem_map_of_mem hw
    rw [hops] at hmem
    exact hnames w.1 (mem_of_mem_surfaced _ docs hmem)
  have hlines := lines_moduleCode TypeTable.standard_isPlain hnamed hwritten
  rw [← hcode] at hlines
  refine ⟨written, hops, hwritten, hlines, ?_⟩
  rw [hlines]
  exact agrees_markedModule_iff TypeTable.standard_isPlain hnamed hwritten

/-! ### A sample -/

namespace StraySample

/-- An operation without inputs and outputs. -/
def pad : Operation := { name := "Pad" }

/-- Documentation for the operation `Pad` that is a run of five quotes. -/
def docs (name : Text) : Option Documentation :=
  if name = "Pad" then some { name := name, summary := fill 5 '"' } else none

/-- The name of `pad` is an identifier, so nothing but its documentation is unusual. -/
theorem wellNamed_pad : pad.WellNamed where
  name := by decide
  inputs := by simp [pad]
  outputs := by simp [pad]
  attributes := by simp [pad]

/-- The operation `pad` gets a method, and the five quotes are the only stray run in its docstring.
-/
theorem generateModule_pad :
    ∃ p, IsWritten TypeTable.standard .graph docs (pad, p) ∧
      p.docLines.map strayRuns = [1, 0, 0, 0] ∧
      generateModule TypeTable.standard .graph [pad] docs =
        ([], .ok ⟨moduleCode .graph (writtenBlocks [(pad, p)]), { emitted := ["Pad"] }⟩) := by
  obtain ⟨p, hp, hstrays⟩ : ∃ p,
      pad.pieces TypeTable.standard .graph { name := "Pad", summary := fill 5 '"' } = .ok p ∧
        p.docLines.map strayRuns = [1, 0, 0, 0] := by
    refine ⟨_, rfl, ?_⟩
    -- The note on the name is long: written out, it is not decoded again at each step.
    delta nameNote
    repeat rw [String.toList_ofList]
    decide +kernel
  have hdoc : docs pad.name = some { name := "Pad", summary := fill 5 '"' } := if_pos rfl
  have hblock := (Operation.methodBlock_eq_ok_iff _ _ _ _ _).mpr ⟨p, hp, rfl⟩
  have hreason : pad.skipReason? TypeTable.standard (docs pad.name) = none := by
    rw [hdoc]
    rfl
  refine ⟨p, ⟨_, hdoc, hp⟩, hstrays, ?_⟩
  rw [generateModule, sortedByName, List.mergeSort_singleton,
    progress_cons_of_block TypeTable.standard .graph docs hreason hdoc hblock]
  rfl

end StraySample

open StraySample (pad) in
/-- Five quotes, which `escapedDocLine` leaves a triple quote in, make the scanner disagree with the
module they stand in. -/
theorem scan_generateModule_stray :
    pad.WellNamed ∧ tripleQuote <:+: escapedDocLine (fill 5 '"') ∧
      ∃ p m, generateModule TypeTable.standard .graph [pad] StraySample.docs = ([], .ok m) ∧
        IsWritten TypeTable.standard .graph StraySample.docs (pad, p) ∧
        lines m.code = (markedModule .graph [(pad, p)]).map ScannedLine.text ∧
        scan (lines m.code) ≠ markedModule .graph [(pad, p)] := by
  obtain ⟨p, hwritten, hstrays, hrun⟩ := StraySample.generateModule_pad
  have hstray : 0 < strayRuns (fill 5 '"') := by decide
  have hnamed : ∀ w ∈ [(pad, p)], w.1.WellNamed := by
    simpa using StraySample.wellNamed_pad
  have hall : ∀ w ∈ [(pad, p)], IsWritten TypeTable.standard .graph StraySample.docs w := by
    simpa using hwritten
  have hlines := lines_moduleCode TypeTable.standard_isPlain hnamed hall
  refine ⟨StraySample.wellNamed_pad, (tripleQuote_isInfix_iff _).mpr hstray, p, _, hrun,
    hwritten, hlines, ?_⟩
  rw [hlines]
  intro hagrees
  -- One stray run is an odd number of them.
  have hcloses := (agrees_markedModule_iff TypeTable.standard_isPlain hnamed hall).mp hagrees
    (pad, p) List.mem_cons_self
  have heven := hcloses.even
  rw [hstrays] at heven
  exact absurd heven (by decide)

/-- The condition of the general statement at work: the docstring of `pad` does not close, and the
scanner does not find it. -/
theorem scan_generateModule_iff_sample :
    (∀ op ∈ [StraySample.pad], op.WellNamed) ∧
      ∃ warnings m,
        generateModule TypeTable.standard .graph [StraySample.pad] StraySample.docs =
          (warnings, .ok m) ∧
        ∃ written, (∀ w ∈ written, IsWritten TypeTable.standard .graph StraySample.docs w) ∧
          (scan (lines m.code) = markedModule .graph written ↔
            ∀ w ∈ written, Closes w.2.docLines) := by
  have hnamed : ∀ op ∈ [StraySample.pad], op.WellNamed := by
    simpa using StraySample.wellNamed_pad
  obtain ⟨p, -, -, hrun⟩ := StraySample.generateModule_pad
  obtain ⟨⟨written, -, hwritten, -, hiff⟩, -⟩ :=
    scan_generateModule_iff .graph [StraySample.pad] StraySample.docs _ _ hnamed hrun
  exact ⟨hnamed, _, _, hrun, written, hwritten, hiff⟩

end TypedOps
