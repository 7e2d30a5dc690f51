import TypedOps.Proofs.Emit.Untripled
import TypedOps.Proofs.Layout.DocstringMarks
import TypedOps.Proofs.Layout.Statements

/-!
# `TypedOps.Proofs.Layout.Signatures`: wrapping recovers the signature

A signature is joined to one line and taken apart again when the line is too long. What comes out is
what was joined: annotations with brackets, defaults and quoted names stay whole.

* `laidOut`: the two passes of the layout in one, from a place on. Each kind of line has an
  equation that says what is written for it and how the layout goes on behind it.
* `Operation.laidOut_heading`, `exists_laidOut_docstringBlock` and `Operation.laidOut_body`: the
  three parts of a method. The scanner may lose its way in the docstring, and then it takes the
  statements behind it for text; the signature stands in front and is safe.
* `Operation.lines_format_emit`: the parts put together, for a method at any level.
-/

set_option autoImplicit false

namespace TypedOps

open Layout
open Naming (parameter)
open Operation (Pieces)
open Text

/-! ### Layouts -/

namespace Operation

/-- The `defLine` that opens a method: as it is, or with one parameter a line if it is longer than
`lineLimit`. -/
def signatureLayout (level : Int) (op : Operation) (params : List Text) : List Text :=
  let line := (op.defLine params).render level
  if line.length ≤ lineLimit then [line]
  else (indentation level ++ "def " ++ Naming.method op.name ++ ['(']) ::
    (itemLines (indentation level) params ++
      [indentation level ++ ") -> " ++ op.returnHint ++ [':']])

/-- What stands in front of the docstring of a method, the last of it the `signatureLayout`. Behind
the named tuple of the outputs there are blank lines: two at the margin, and one inside a class. -/
def headingLayout (level : Int) (op : Operation) (params : List Text) : List Text :=
  let blanks := if op.outputsClassBlock.isEmpty then 0 else if level ≤ 0 then 2 else 1
  op.outputsClassBlock.map (Line.render level) ++
    (List.replicate blanks [] ++ op.signatureLayout level params)

end Operation

namespace Layout

/-! ### A run of the layout -/

/-- A line without triple quotes outside a docstring is passed by `scanFrom` and left unmarked. -/
theorem scanFrom_code {t : Text} (h : tripleQuotes t = 0) (ls : List Text) :
    scanFrom false (t :: ls) = ⟨t, false⟩ :: scanFrom false ls := by
  rw [scanFrom_cons, h]
  rfl

/-- Code, an `IsCodeBlock`, holds no triple quote when it is written at a level. -/
theorem bare_render {block : List Line} (h : IsCodeBlock block) (level : Int) :
    ∀ t ∈ block.map (Line.render level), tripleQuotes t = 0 := by
  intro t ht
  obtain ⟨line, hline, rfl⟩ := List.mem_map.mp ht
  rw [tripleQuotes_render]
  exact (h line hline).bare

/-- A block of code is passed by `scanFrom` and marked by the bit that the scanner carries. -/
theorem scanFrom_block {block : List Line} (h : IsCodeBlock block) (level : Int) (inside : Bool)
    (ls : List Text) :
    scanFrom inside (block.map (Line.render level) ++ ls) =
      (block.map (Line.render level)).map (fun t => ⟨t, inside⟩) ++ scanFrom inside ls := by
  have hbare := bare_render h level
  rw [scanFrom_append, scanFrom_of_bare hbare, insideAfter_of_bare hbare]

/-- Scanned lines laid out behind a line of the given kind, by `respaceFrom` and then `formatLine`.
-/
def laidOut (above : Above) (ls : List ScannedLine) : List Text :=
  (respaceFrom above [] ls).flatMap formatLine

/-- The lines of a text that is laid out are its scanned lines, `laidOut` from the start. -/
theorem lines_format_eq_laidOut (code : Text) :
    lines (format code) = laidOut .start (scan (lines code)) := by
  rw [laidOut, ← map_text_rewrap, ← respace, ← scan_lines_format, scan, map_text_scanFrom]

/-- What a line of code is for the lines behind it, `above` them: a class line or any other. -/
theorem above_code (t : Text) :
    (ScannedLine.mk t false).above = if isClassLine t then .classLine else .other :=
  rfl

/-- Empty lines stay empty under `formatLine`. -/
theorem flatMap_formatLine_replicate (count : Nat) :
    (unmarked (List.replicate count [])).flatMap formatLine = List.replicate count [] := by
  have hempty : ∀ t ∈ List.replicate count ([] : Text), t = [] := fun t ht =>
    List.eq_of_mem_replicate ht
  rw [← map_text_rewrap, rewrap_unmarked (fun t ht => by rw [hempty t ht]; rfl)
    fun t ht => by rw [hempty t ht]; decide]
  simp [unmarked]

/-- In what is `laidOut`, a line that is not blank comes behind what becomes of the blank lines in
front of it. -/
theorem laidOut_cons {above : Above} {line : ScannedLine} (hsolid : line.isSolid = true)
    (rest : List ScannedLine) :
    laidOut above (line :: rest) = (unmarked (spacing above [] line)).flatMap formatLine ++
      (formatLine line ++ laidOut line.above rest) := by
  rw [laidOut, respaceFrom, if_pos hsolid, List.flatMap_append, List.flatMap_cons]
  rfl

/-- In what is `laidOut`, a line of a docstring stays as it is, with no blank line put in front of
it. -/
theorem laidOut_docstring (above : Above) (t : Text) (rest : List ScannedLine) :
    laidOut above (⟨t, true⟩ :: rest) = t :: laidOut .other rest := by
  have hspacing : spacing above [] ⟨t, true⟩ = [] := by
    simp [spacing, wanted?, kept]
  rw [laidOut_cons (isSolid_docstring t), hspacing]
  simp [unmarked, formatLine, ScannedLine.above]

/-- In what is `laidOut`, lines of a docstring in a row stay as they are. -/
theorem laidOut_docstrings (ls : List Text) (rest : List ScannedLine) :
    laidOut .other (ls.map (fun t => ⟨t, true⟩) ++ rest) = ls ++ laidOut .other rest := by
  induction ls with
  | nil => rfl
  | cons t ls ih =>
    rw [List.map_cons, List.cons_append, laidOut_docstring, ih, List.cons_append]

/-- In what is `laidOut`, lines of code that open nothing are wrapped where they stand. -/
theorem laidOut_inert {ls : List Text} (h : ∀ t ∈ ls, Inert t) (rest : List ScannedLine) :
    laidOut .other (unmarked ls ++ rest) =
      (unmarked ls).flatMap formatLine ++ laidOut .other rest := by
  rw [laidOut, respaceFrom_inert_append h, List.flatMap_append]
  rfl

/-- In what is `laidOut`, no blank lines are put in front of the first line. -/
theorem laidOut_first {line : ScannedLine} (hsolid : line.isSolid = true)
    (rest : List ScannedLine) :
    laidOut .start (line :: rest) = formatLine line ++ laidOut line.above rest := by
  have hspacing : spacing .start [] line = [] := by
    rw [spacing]
    split <;> simp [kept]
  rw [laidOut_cons hsolid, hspacing]
  rfl

/-- In what is `laidOut`, there are blank lines in front of a definition behind other lines, as many
as its indentation wants. -/
theorem laidOut_definition {t : Text} (hdefinition : isDefinition t = true)
    (hclass : isClassLine t = false) (rest : List ScannedLine) :
    laidOut .other (⟨t, false⟩ :: rest) =
      List.replicate (if startsWith t " " then 1 else 2) [] ++
        (formatLine ⟨t, false⟩ ++ laidOut .other rest) := by
  have hspacing : spacing .other [] ⟨t, false⟩ =
      List.replicate (if startsWith t " " then 1 else 2) [] := by
    rw [spacing, wanted?, hdefinition]
    cases startsWith t " " <;> rfl
  have hsolid : (ScannedLine.mk t false).isSolid = true := isSolid_of_isDefinition hdefinition
  rw [laidOut_cons hsolid, hspacing, flatMap_formatLine_replicate, above_code, hclass]
  rfl

/-- What stands in front of a line of a docstring is `laidOut` for itself, whatever follows the
line. -/
theorem laidOut_append_docstring (above : Above) (ls : List ScannedLine) (t : Text)
    (rest : List ScannedLine) :
    laidOut above (ls ++ ⟨t, true⟩ :: rest) = laidOut above (ls ++ [⟨t, true⟩]) ++
      laidOut .other rest := by
  -- Blank lines wait in front of the line, so they vary in the induction.
  have hrun : ∀ (above : Above) (blanks : List Text),
      respaceFrom above blanks (ls ++ ⟨t, true⟩ :: rest) =
        respaceFrom above blanks (ls ++ [⟨t, true⟩]) ++ respaceFrom .other [] rest := by
    induction ls with
    | nil =>
      intro above blanks
      simp [respaceFrom, ScannedLine.above, kept, unmarked]
    | cons line ls ih =>
      intro above blanks
      rw [List.cons_append, List.cons_append, respaceFrom, respaceFrom]
      split
      · rw [ih, List.append_assoc]
        rfl
      · exact ih _ _
  rw [laidOut, hrun, List.flatMap_append]
  rfl

/-- In what is `laidOut`, the empty line at the end of a text stays. -/
theorem laidOut_end (inside : Bool) : laidOut .other [⟨[], inside⟩] = [[]] := by
  cases inside <;> rfl

end Layout

/-- A block that is `LaidOutAs` some lines becomes these lines behind any other line. -/
theorem LaidOutAs.laidOut {block : List Line} {layout : Int → List Text}
    (h : LaidOutAs block layout) (level : Int) (rest : List ScannedLine) :
    Layout.laidOut .other (unmarked (block.map (Line.render level)) ++ rest) =
      layout level ++ Layout.laidOut .other rest := by
  have hinert : ∀ t ∈ block.map (Line.render level), Inert t := by
    intro t ht
    obtain ⟨line, hline, rfl⟩ := List.mem_map.mp ht
    exact h.inert level line hline
  have hformatted : (unmarked (block.map (Line.render level))).flatMap formatLine =
      layout level := by
    rw [← h.formatted level, unmarked, List.map_map, List.flatMap_map]
    rfl
  rw [laidOut_inert hinert, hformatted]

/-! ### The signature -/

/-- A name with an annotation is an `Item`, an argument of its own. -/
theorem item_declaration {name hint : Text} (h : IsAsciiName name) (hhint : Item hint) :
    Item (name ++ ": " ++ hint) := by
  have hfirst : ∀ c ∈ (name ++ ": " ++ hint).head?, isBlank c = false := by
    obtain ⟨c, rest, rfl⟩ := List.exists_cons_of_ne_nil h.1
    simpa using h.isBlank_eq_false c List.mem_cons_self
  have hlast : ∀ c ∈ (name ++ ": " ++ hint).getLast?, isBlank c = false := by
    have hend := getLast?_strip hint
    rw [hhint.stripped] at hend
    rwa [List.getLast?_append_of_ne_nil _ hhint.ne_nil]
  -- No code point of a name is a quote, a bracket or a comma, so the state of the splitter stays.
  have hpass : ArgState.Passes {} name := by
    refine ArgState.passes_of_not_mem fun c hc => ?_
    have hmark : ∀ c ∈ literalQuotes ++ openingBrackets ++ closingBrackets ++ [','],
        ¬(c.isAlphanum ∨ c = '_' ∨ 128 ≤ c.toNat) := by decide
    exact h.isIdentifier.not_mem (hmark c hc)
  have hcolon : ArgState.Passes {} (": " : Text) := by decide
  exact ⟨by simp, strip_eq_self hfirst hlast, (hpass.append hcolon).append hhint.passes⟩

namespace Operation

variable {op : Operation} {params : List Text}

/-- The parameters of `signatureParams` are arguments of their own, so a wrapped signature has one
for each line. -/
theorem item_signatureParams (hnames : op.AsciiNames)
    (h : op.signatureParams TypeTable.standard = .ok params) : ∀ param ∈ params, Item param := by
  have hfit := annotated_of_signatureParams h
  rw [signatureParams_eq_ok hfit, Except.ok.injEq] at h
  subst h
  simp only [List.forall_mem_cons, List.forall_mem_append, List.forall_mem_map]
  -- The receiver, the inputs, the attributes and the name.
  refine ⟨by decide, ⟨fun a ha => ?_, fun a ha => ?_⟩, by decide, by simp⟩
  · refine item_declaration (hnames.inputs a ha).parameter ?_
    rw [Argument.typeHint]
    cases a.isList <;> decide
  · have hname := hnames.attributes a ((mem_parameterAttributes_iff op a).mp ha).1
    refine item_declaration hname.parameter ?_
    obtain ⟨e, -, hmapped⟩ := exists_element (hfit a ha)
    rw [TypeTag.typeHint?, hmapped]
    generalize (TypeTag.split a.tag).2 = isList
    generalize a.hasDefault = isOptional
    cases e <;> cases isList <;> cases isOptional <;> decide

/-- The `returnHint` holds no bracket that could end the parameters. -/
theorem returnHint_bare (hnames : op.AsciiNames) :
    op.returnHint ≠ [] ∧ '(' ∉ op.returnHint ∧ ')' ∉ op.returnHint := by
  -- A hint on a single output has square brackets at most.
  have hargument : ∀ a : Argument, a.typeHint ≠ [] ∧ '(' ∉ a.typeHint ∧ ')' ∉ a.typeHint := by
    intro a
    rw [Argument.typeHint]
    cases a.isList <;> decide
  rw [returnHint]
  split
  · decide
  · next a _ => exact hargument a
  · have hopening : '(' ∉ op.outputsClass :=
      List.not_mem_append (hnames.name.isIdentifier.not_mem (by decide)) (by decide)
    have hclosing : ')' ∉ op.outputsClass :=
      List.not_mem_append (hnames.name.isIdentifier.not_mem (by decide)) (by decide)
    refine ⟨List.append_ne_nil_of_right_ne_nil _ (List.cons_ne_nil _ _), ?_, ?_⟩
    · exact List.not_mem_append (by decide)
        (List.not_mem_cons_of_ne_of_not_mem (by decide) hopening)
    · exact List.not_mem_append (by decide)
        (List.not_mem_cons_of_ne_of_not_mem (by decide) hclosing)

/-- The annotation of the result is taken for one by `isResult`. -/
theorem isResult_returnHint (hnames : op.AsciiNames) :
    isResult (" -> " ++ op.returnHint) = true := by
  obtain ⟨hne, hopening, hclosing⟩ := returnHint_bare hnames
  have hafter : afterStart? "->" ((" -> " ++ op.returnHint : Text).dropWhile isBlank) =
      some (' ' :: op.returnHint) := rfl
  -- Brackets would end the parameters early, which is what the test excludes.
  have hall : (' ' :: op.returnHint).all (fun c => c != '(' && c != ')') = true := by
    simp only [List.all_eq_true]
    intro c hc
    rcases List.mem_cons.mp hc with rfl | hc
    · rfl
    · have hother : c ≠ '(' ∧ c ≠ ')' :=
        ⟨fun heq => hopening (heq ▸ hc), fun heq => hclosing (heq ▸ hc)⟩
      simpa using hother
  unfold isResult
  split
  · rfl
  · rw [hafter]
    exact hall

/-- The line that opens a method, taken apart as `definition?` takes it. -/
theorem render_defLine (level : Int) (op : Operation) (params : List Text) :
    (op.defLine params).render level = indentation level ++ ("def" ++ ([' '] ++
      (Naming.method op.name ++ '(' :: (join ", " params ++
        ')' :: ((" -> " ++ op.returnHint) ++ [':']))))) := by
  rw [render_of_ne_nil level (by simp [defLine])]
  simp [defLine]

/-- The line that opens a method is laid out as its `signatureLayout`. -/
theorem formatLine_defLine (hnames : op.AsciiNames)
    (h : op.signatureParams TypeTable.standard = .ok params) (level : Int) :
    formatLine ⟨(op.defLine params).render level, false⟩ = op.signatureLayout level params := by
  have hmethod := hnames.name.method
  have hfirst : ∀ c ∈ (Naming.method op.name).head?, isBlank c = false := fun c hc =>
    hmethod.isBlank_eq_false c (List.mem_of_mem_head? hc)
  have hone : OneLine (join ", " params) := oneLine_join (by decide)
    (oneLine_of_mem_signatureParams TypeTable.standard_isPlain hnames.wellNamed.oneLineNames h)
  -- The parameters reach to the last closing bracket, and the annotation behind them has none.
  have hbracket : ')' ∉ (" -> " : Text) ++ op.returnHint :=
    List.not_mem_append (by decide) (returnHint_bare hnames).2.2
  have hwrap := wrapLine_definition (isBlank_indentation level)
    ⟨hmethod.1, hmethod.isWord_eq_true⟩ hfirst hone (isResult_returnHint hnames) hbracket
  have hclosing : indentation level ++ ')' :: (" -> " ++ op.returnHint) ++ [':'] =
      indentation level ++ ") -> " ++ op.returnHint ++ [':'] := by
    simp
  rw [splitArguments_items (item_signatureParams hnames h), ← render_defLine, hclosing] at hwrap
  rw [formatLine_code, hwrap]
  rfl

end Operation

/-! ### The heading -/

/-- A field of the named tuple is `Quiet`: an annotated name, it stays on one line. -/
theorem quiet_field {a : Argument} (h : IsAsciiName a.name) :
    Quiet (parameter a.name ++ ": " ++ a.typeHint) := by
  have hname : Unspaced (parameter a.name) := h.parameter.isBlank_eq_false
  -- The last code point of an annotation is a letter or a square bracket, so the line ends neither
  -- as a definition nor as a call.
  obtain ⟨hcompact, last, hlast, hblank, hcolon, hbracket⟩ : Compact (": " ++ a.typeHint) ∧
      ∃ last, a.typeHint.getLast? = some last ∧ isBlank last = false ∧ last ≠ ':' ∧
        last ≠ ')' := by
    rw [Argument.typeHint]
    cases a.isList <;> exact ⟨by decide, _, rfl, by decide⟩
  have hend : (parameter a.name ++ ": " ++ a.typeHint).getLast? = some last := by
    rw [List.getLast?_append, hlast]
    rfl
  have hall := hname.compact.append hcompact
  rw [← List.append_assoc] at hall
  refine ⟨fun level => ?_, fun hone level => ?_⟩
  · exact inert_of_keywordFree (isBlank_indentation level) (by simp) hall.first
      (isBlank_of_eq_some hblank hend) hall.free
  · refine wrapLine_eq_self (oneLine_append.mpr ⟨oneLine_indentation level, hone⟩) ?_ ?_ <;>
      rw [getLast?_indentation level (by simp), hend] <;> intro heq
    · exact absurd (Option.some.inj heq) hcolon
    · exact absurd (Option.some.inj heq) hbracket

/-- A line that begins like a class and ends in a colon `isClassLine`, and it stays. -/
theorem classLine (level : Int) {rest : Text} (hone : OneLine rest)
    (hlast : rest.getLast? = some ':') :
    isClassLine (indentation level ++ ("class " ++ rest)) = true ∧
      formatLine ⟨indentation level ++ ("class " ++ rest), false⟩ =
        [indentation level ++ ("class " ++ rest)] := by
  have hindent := isBlank_indentation level
  have hne : rest ≠ [] := by
    rintro rfl
    cases hlast
  have hend : ("class " ++ rest : Text).getLast? = some ':' := by
    rw [List.getLast?_append_of_ne_nil _ hne, hlast]
  constructor
  · have hfirst : ("class " ++ rest : Text).head? = some 'c' := rfl
    have hstrip := strip_append hindent (isBlank_of_eq_some (by decide) hfirst)
      (isBlank_of_eq_some (by decide) hend)
    rw [isClassLine, hstrip, startsWith, afterStart?_append]
    rfl
  · have hline : OneLine (indentation level ++ ("class " ++ rest)) :=
      oneLine_append.mpr ⟨oneLine_indentation level, oneLine_append.mpr ⟨by decide, hone⟩⟩
    rw [formatLine_code, wrapLine_eq_self hline ?_ ?_, ite_self]
    · intro _
      rw [dropWhile_blank_append hindent (by simp; decide)]
      simp
    · intro heq
      rw [getLast?_indentation level (by simp), hend] at heq
      exact absurd heq (by decide)

namespace Operation

variable {op : Operation} {params : List Text}

/-- The `outputsClassBlock`, if there is one, is a class line, a docstring on one line and fields
that stay on theirs. -/
theorem outputsClassBlock_shape (hnames : op.AsciiNames) :
    op.outputsClassBlock = [] ∨ ∃ (rest : Text) (docstring : Line) (fields : List Line),
      op.outputsClassBlock = { text := "class " ++ rest } :: docstring :: fields ∧
        rest.getLast? = some ':' ∧ Line.IsCode { text := "class " ++ rest } ∧
          tripleQuotes docstring.text = 2 ∧ IsCodeBlock fields ∧
            ∀ line ∈ fields, Quiet line.text := by
  rcases outputsClassBlock_cases hnames.wellNamed with
    hnone | ⟨opening, docstring, fields, hblock, hopening, -, htwo, hfields⟩
  · exact .inl hnone
  · right
    rw [hblock]
    -- The class line is known already, so the block has to be the one of the third case.
    rw [outputsClassBlock] at hblock
    split at hblock
    · cases hblock
    · cases hblock
    · obtain ⟨rfl, hrest⟩ := List.cons.inj hblock
      obtain ⟨rfl, rfl⟩ := List.cons.inj hrest
      rw [List.append_assoc] at hopening ⊢
      refine ⟨op.outputsClass ++ "(NamedTuple):", _, _, rfl, ?_, hopening, htwo, hfields, ?_⟩
      · exact List.getLast?_append_of_ne_nil _ (by decide)
      · intro line hline
        obtain ⟨field, hfield, rfl⟩ := List.mem_map.mp hline
        obtain ⟨a, ha, rfl⟩ := List.mem_map.mp hfield
        exact quiet_field (hnames.outputs a ha)

/-- The `defLine` that opens a method is a definition and no class line, and it stands at the margin
unless the level is above zero. -/
theorem defLine_opens (hnames : op.AsciiNames) (level : Int) (params : List Text) :
    isDefinition ((op.defLine params).render level) = true ∧
      isClassLine ((op.defLine params).render level) = false ∧
        startsWith ((op.defLine params).render level) " " = decide (0 < level) := by
  have hmethod := hnames.name.method
  have hindent := isBlank_indentation level
  refine ⟨?_, ?_, ?_⟩
  · rw [render_defLine]
    refine isDefinition_def hindent ⟨by simp, by decide⟩ ⟨hmethod.1, hmethod.isWord_eq_true⟩
      (fun c hc => hmethod.isBlank_eq_false c (List.mem_of_mem_head? hc))
      (isBlank_of_eq_some (by decide : isBlank ':' = false) ?_)
    simp only [← List.append_assoc, ← List.cons_append, List.getLast?_concat]
  · rw [render_defLine]
    obtain ⟨rest, hrest⟩ := exists_strip_eq hindent (by decide : isBlank 'd' = false)
      ('e' :: 'f' :: ([' '] ++ (Naming.method op.name ++ '(' :: (join ", " params ++
        ')' :: ((" -> " ++ op.returnHint) ++ [':'])))))
    have hstrip : strip (indentation level ++ ("def" ++ ([' '] ++
        (Naming.method op.name ++ '(' :: (join ", " params ++
          ')' :: ((" -> " ++ op.returnHint) ++ [':'])))))) = 'd' :: rest := hrest
    rw [isClassLine, hstrip]
    rfl
  · rw [render_defLine]
    by_cases hlevel : 0 < level
    -- Above level zero the line begins with a blank, at it with the keyword.
    · obtain ⟨n, hn⟩ : ∃ n, 4 * level.toNat = n + 1 := ⟨4 * level.toNat - 1, by omega⟩
      rw [indentation, hn, decide_eq_true hlevel]
      rfl
    · have hzero : 4 * level.toNat = 0 := by omega
      rw [indentation, hzero, decide_eq_false hlevel]
      rfl

/-- The `defLine` that opens a method is laid out behind other lines with blank lines in front. -/
theorem laidOut_defLine (hnames : op.AsciiNames)
    (h : op.signatureParams TypeTable.standard = .ok params) (level : Int)
    (rest : List ScannedLine) :
    laidOut .other (⟨(op.defLine params).render level, false⟩ :: rest) =
      List.replicate (if level ≤ 0 then 2 else 1) [] ++
        (op.signatureLayout level params ++ laidOut .other rest) := by
  obtain ⟨hdefinition, hclass, hmargin⟩ := defLine_opens hnames level params
  rw [laidOut_definition hdefinition hclass, formatLine_defLine hnames h, hmargin]
  by_cases hlevel : 0 < level
  · simp [hlevel, Int.not_le.mpr hlevel]
  · simp [hlevel, Int.not_lt.mp hlevel]

/-- What stands in front of the docstring is laid out as its `headingLayout`, and no docstring is
open behind it. -/
theorem laidOut_heading (hnames : op.AsciiNames)
    (h : op.signatureParams TypeTable.standard = .ok params) (level : Int) (rest : List Text) :
    laidOut .start (scanFrom false ((op.outputsClassBlock.map (Line.render level)) ++
        (op.defLine params).render level :: rest)) =
      op.headingLayout level params ++ laidOut .other (scanFrom false rest) := by
  obtain ⟨hdefinition, hclass, -⟩ := defLine_opens hnames level params
  have hdef : tripleQuotes ((op.defLine params).render level) = 0 := by
    rw [tripleQuotes_render]
    exact (isCode_defLine hnames.wellNamed
      (plain_of_mem_signatureParams TypeTable.standard_isPlain hnames.wellNamed h)).bare
  have hsolid : (ScannedLine.mk ((op.defLine params).render level) false).isSolid = true :=
    isSolid_of_isDefinition hdefinition
  rcases outputsClassBlock_shape hnames with
    hnone | ⟨head, docstring, fields, hblock, hlast, hcode, htwo, hfields, hquiet⟩
  · rw [hnone, List.map_nil, List.nil_append, scanFrom_code hdef, laidOut_first hsolid, above_code,
      hclass, formatLine_defLine hnames h, headingLayout, hnone]
    rfl
  · have hhead : OneLine head := (oneLine_append.mp hcode.oneLine).2
    obtain ⟨hopening, hkept⟩ := classLine level hhead hlast
    have hrender := render_statement level (by simp : ("class " ++ head : Text) ≠ [])
    have hbare : tripleQuotes (indentation level ++ ("class " ++ head)) = 0 := by
      rw [← hrender, tripleQuotes_render]
      exact hcode.bare
    -- The docstring of the named tuple opens and closes on its one line.
    have hdocstring : ∀ ls, scanFrom false (docstring.render level :: ls) =
        ⟨docstring.render level, true⟩ :: scanFrom false ls := by
      intro ls
      rw [scanFrom_cons, tripleQuotes_render, htwo]
      rfl
    have hsolid' : (ScannedLine.mk (indentation level ++ ("class " ++ head)) false).isSolid =
        true := isSolid_of_isClassLine hopening
    have htuple := laidOutAs_of_quiet hquiet fun line hline => (hfields line hline).oneLine
    rw [hblock, List.map_cons, List.map_cons, List.cons_append, List.cons_append, hrender,
      scanFrom_code hbare, hdocstring, scanFrom_block hfields, scanFrom_code hdef,
      laidOut_first hsolid', above_code, hopening, hkept]
    show _ ++ laidOut .classLine (_ :: (unmarked _ ++ _)) = _
    rw [laidOut_docstring, htuple.laidOut, laidOut_defLine hnames h, headingLayout, hblock,
      List.map_cons, List.map_cons, hrender]
    simp

end Operation

/-! ### The docstring -/

/-- A `docstringBlock` holds its two delimiters and a triple quote for each stray run. -/
theorem sum_tripleQuotes_docstringBlock (docLines : List Text) :
    ((docstringBlock docLines).map fun line => tripleQuotes line.text).sum =
      2 + (docLines.map strayRuns).sum := by
  cases docLines with
  | nil => decide
  | cons first rest =>
    rw [map_tripleQuotes_docstringBlock]
    simp only [List.sum_cons, List.sum_append, List.sum_nil, List.map_cons]
    omega

/-- Behind a `docstringBlock` the scanner is inside a docstring if the number of stray runs is odd.
-/
theorem insideAfter_docstringBlock (level : Int) (docLines : List Text) :
    insideAfter false ((docstringBlock docLines).map (Line.render level)) =
      ((docLines.map strayRuns).sum % 2 == 1) := by
  have hcounts : ((docstringBlock docLines).map (Line.render level)).map tripleQuotes =
      (docstringBlock docLines).map fun line => tripleQuotes line.text := by
    rw [List.map_map]
    exact List.map_congr_left fun line _ => tripleQuotes_render level line
  rw [insideAfter_eq, hcounts, sum_tripleQuotes_docstringBlock, Nat.add_mod_left]
  exact Bool.false_bne _

/-- The scanner takes the last line of a `docstringBlock` for one of a docstring, whatever stands
above. -/
theorem exists_scanFrom_docstringBlock (level : Int) (docLines : List Text) :
    ∃ front : List ScannedLine, scanFrom false ((docstringBlock docLines).map (Line.render level)) =
      front ++ [⟨Line.render level { text := tripleQuote }, true⟩] := by
  obtain ⟨above, hblock⟩ : ∃ above : List Line,
      docstringBlock docLines = above ++ [{ text := tripleQuote }] := by
    unfold docstringBlock
    rw [List.map_append]
    exact ⟨_, rfl⟩
  have hquotes : tripleQuotes (Line.render level { text := tripleQuote }) = 1 := by
    rw [tripleQuotes_render]
    decide
  rw [hblock, List.map_append, scanFrom_append, List.map_singleton, scanFrom_cons, hquotes]
  refine ⟨scanFrom false (above.map (Line.render level)), ?_⟩
  simp [scanFrom]

/-- A docstring is laid out for itself, and it stays as it is if it `Closes`. -/
theorem exists_laidOut_docstringBlock (level : Int) (docLines rest : List Text) :
    ∃ docstring, (Closes docLines → docstring = (docstringBlock docLines).map (Line.render level)) ∧
      laidOut .other (scanFrom false ((docstringBlock docLines).map (Line.render level) ++ rest)) =
        docstring ++ laidOut .other (scanFrom ((docLines.map strayRuns).sum % 2 == 1) rest) := by
  refine ⟨laidOut .other (scanFrom false ((docstringBlock docLines).map (Line.render level))),
    fun hcloses => ?_, ?_⟩
  · -- The scanner finds all its lines.
    have hagrees := ((agrees_asDocstring_iff level _).mpr
      ((enclosed_docstringBlock_iff docLines).mpr hcloses)).1
    rw [Agrees, map_text_asDocstring] at hagrees
    have hkept := laidOut_docstrings ((docstringBlock docLines).map (Line.render level)) []
    rw [List.append_nil, List.map_map] at hkept
    rw [hagrees]
    exact hkept.trans (List.append_nil _)
  · -- Whatever became of the lines above, the last one is taken for a line of the docstring, and
    -- no blank lines wait behind it.
    obtain ⟨front, hfront⟩ := exists_scanFrom_docstringBlock level docLines
    rw [scanFrom_append, insideAfter_docstringBlock, hfront, List.append_assoc,
      List.singleton_append, laidOut_append_docstring]

/-! ### Methods -/

namespace Operation

/-- The `body` behind the docstring is laid out, or left alone if the scanner takes it for a
docstring. -/
theorem laidOut_body {b : Binding} {op : Operation} {doc : Documentation} {p : Pieces}
    (hnames : op.AsciiNames) (hp : op.pieces TypeTable.standard b doc = .ok p) (level : Int)
    (inside : Bool) :
    laidOut .other (scanFrom inside ((p.body op).map (Line.render level) ++ [[]])) =
      (if inside then (p.body op).map (Line.render level) else p.bodyLayout level op) ++ [[]] := by
  rw [scanFrom_block (isCode_body hnames.wellNamed hp)]
  cases inside with
  | false =>
    refine ((laidOutAs_body hnames hp).laidOut level _).trans ?_
    exact congrArg (p.bodyLayout level op ++ ·) (laidOut_end false)
  | true =>
    rw [laidOut_docstrings]
    exact congrArg ((p.body op).map (Line.render level) ++ ·) (laidOut_end true)

/-- There are `pieces` of a method when each attribute has an annotation and the docstring can be
written. -/
theorem exists_pieces_eq_ok {b : Binding} {op : Operation} {doc : Documentation}
    {docLines : List Text} (hb : b ≠ .base)
    (hmapped : ∀ a ∈ op.parameterAttributes, Annotated TypeTable.standard a)
    (hdoc : docstringLines op doc = .ok docLines) :
    ∃ p, op.pieces TypeTable.standard b doc = .ok p ∧ p.docLines = docLines := by
  obtain ⟨finish, -, -, hpieces⟩ := pieces_eq_map hb hmapped doc
  have hheading : ∃ params, op.heading TypeTable.standard doc = .ok (params, docLines) := by
    rw [heading, signatureParams_eq_ok hmapped, hdoc]
    exact ⟨_, rfl⟩
  obtain ⟨params, hheading⟩ := hheading
  rw [hpieces, hheading]
  exact ⟨_, rfl, rfl⟩

variable {b : Binding} {op : Operation} {doc : Documentation} {p : Pieces}

/-- A method is written by `emit` at every level that is not below zero once its pieces exist. -/
theorem exists_emit_eq_ok (hp : op.pieces TypeTable.standard b doc = .ok p) {level : Int}
    (hlevel : 0 ≤ level) : ∃ w, op.emit TypeTable.standard b doc { level := level } = .ok w := by
  have hblock := (methodBlock_eq_ok_iff ..).mpr ⟨p, hp, rfl⟩
  rw [emit, if_neg fun hbelow => Int.not_lt.mpr hlevel hbelow.1, hblock]
  exact ⟨_, rfl⟩

/-- The lines of a method that `emit` writes are those of its block at the level, and an empty one
behind them. -/
theorem lines_value_emit (hnames : op.WellNamed)
    (hp : op.pieces TypeTable.standard b doc = .ok p) {level : Int} {w : Writer}
    (h : op.emit TypeTable.standard b doc { level := level } = .ok w) :
    lines w.value = (p.block op).map (Line.render level) ++ [[]] := by
  have hblock := (methodBlock_eq_ok_iff ..).mpr ⟨p, hp, rfl⟩
  rw [emit, hblock] at h
  split at h
  · cases h
  obtain rfl := Except.ok.inj h
  -- A method has at least its definition, so the text ends in a line feed of its own.
  have hne : (p.block op).map (Line.render level) ≠ [] := by simp [Pieces.block]
  have hone : ∀ t ∈ (p.block op).map (Line.render level), OneLine t := by
    intro t ht
    obtain ⟨line, hline, rfl⟩ := List.mem_map.mp ht
    exact oneLine_render level
      (oneLineEach_block TypeTable.standard_isPlain hnames.oneLineNames hp line hline)
  have hvalue : (Writer.block { level := level } (p.block op)).value =
      unlines ((p.block op).map (Line.render level)) ++ ['\n'] :=
    if_neg (by simpa [Writer.block] using hne)
  rw [hvalue, lines_unlines_linefeed hne hone]

/-- Take an operation whose names are names of ASCII and whose attributes have annotations, a
registered binding and any documentation that can be written as a docstring. By `emit`, its method
is written at every level that is not below zero. When it is laid out, at whatever level it has been
written, its signature has one parameter a line as soon as it is too long for one line, and behind
the docstring each call that is too long has one argument a line. The calls are left as they are
when the docstring has an odd number of stray runs: then the scanner takes the statements for a
docstring. A docstring that closes stays. -/
theorem lines_format_emit {docLines : List Text} (hb : b ≠ .base) (hnames : op.AsciiNames)
    (hmapped : ∀ a ∈ op.parameterAttributes, Annotated TypeTable.standard a)
    (hdoc : docstringLines op doc = .ok docLines) (level : Int) :
    ∃ p docstring, op.pieces TypeTable.standard b doc = .ok p ∧
      op.signatureParams TypeTable.standard = .ok p.params ∧
      (0 ≤ level → ∃ w, op.emit TypeTable.standard b doc { level := level } = .ok w) ∧
      (∀ w, op.emit TypeTable.standard b doc { level := level } = .ok w →
        lines (format w.value) = op.headingLayout level p.params ++ (docstring ++
          ((if (docLines.map strayRuns).sum % 2 = 0 then p.bodyLayout (level + 1) op
            else (p.body op).map (Line.render (level + 1))) ++ [[]]))) ∧
      (Closes docLines → docstring = (docstringBlock docLines).map (Line.render (level + 1))) := by
  obtain ⟨p, hp, rfl⟩ := exists_pieces_eq_ok hb hmapped hdoc
  obtain ⟨hparams, -, -, -⟩ := (pieces_eq_ok_iff _ _ _ _ _).mp hp
  obtain ⟨docstring, hcloses, hdocstring⟩ := exists_laidOut_docstringBlock (level + 1) p.docLines
    ((p.body op).map (Line.render (level + 1)) ++ [[]])
  -- The heading, the docstring and the body are laid out one by one, each by its lemma. Only a
  -- stray run in the docstring has the body read as documentation.
  have hblock : (p.block op).map (Line.render level) ++ [[]] =
      op.outputsClassBlock.map (Line.render level) ++ (op.defLine p.params).render level ::
        ((docstringBlock p.docLines).map (Line.render (level + 1)) ++
          ((p.body op).map (Line.render (level + 1)) ++ [[]])) := by
    simp [Pieces.block, map_render_deeper_at]
  refine ⟨p, docstring, hp, hparams, exists_emit_eq_ok hp, fun w hw => ?_, hcloses⟩
  rw [lines_format_eq_laidOut, lines_value_emit hnames.wellNamed hp hw, scan, hblock,
    laidOut_heading hnames hparams, hdocstring, laidOut_body hnames hp]
  rcases Nat.mod_two_eq_zero_or_one (p.docLines.map strayRuns).sum with heven | hodd
  · simp [heven]
  · simp [hodd]

/-- The parameters of the operation `Stack`, as they are declared. -/
def stackParams : List Text :=
  ["self", "values: list[Output]", "in_: Output", "shape: list[int]", "axis: int | None = None",
    "name: str | None = None"]

/-- The documentation of `Stack` leaves no triple quote in the docstring. -/
theorem strayRuns_stackDoc {docLines : List Text}
    (h : docstringLines stack stackDoc = .ok docLines) : ∀ l ∈ docLines, strayRuns l = 0 := by
  have hnames : stack.WellNamed := ⟨by decide, by decide, by decide, by decide⟩
  have hop : stack.Untripled := by
    refine ⟨(untripled_iff _).mpr rfl, fun a ha t ht => ?_⟩
    have hnone : ∀ a ∈ stack.attributes, a.defaultValue.strings = [] := by decide
    rw [hnone a ha] at ht
    cases ht
  have hdoc : stackDoc.Untripled :=
    ⟨(untripled_iff _).mpr (by decide), (untripled_iff _).mpr rfl,
      List.forall_mem_singleton.mpr ((untripled_iff _).mpr (by decide)), List.forall_mem_nil _,
      List.forall_mem_nil _, (untripled_iff _).mpr rfl⟩
  exact fun l hl => strayRuns_of_tripleQuotes
    (tripleQuotes_of_mem_docstringLines hnames hop hdoc h l hl)

/-- Inside three blocks both the signature of `Stack` and the call that describes it are too long.
-/
theorem lines_format_emit_stack :
    stack.AsciiNames ∧
      ∃ w, stack.emit TypeTable.standard .typed stackDoc { level := 3 } = .ok w ∧
        ∃ docstring rest, lines (format w.value) =
          (fill 12 ' ' ++ "def stack(") ::
            (itemLines (fill 12 ' ') stackParams ++ [fill 12 ' ' ++ ") -> Output:"]) ++
          (docstring ++ ((fill 16 ' ' ++ "desc = OperationDescription(") :: (itemLines (fill 16 ' ')
            ["self", "\"Stack\"", "self.make_name(\"Stack\", name)"] ++ [fill 16 ' ' ++ [')']]) ++
              rest)) := by
  have hnames : stack.AsciiNames := ⟨by decide, by decide, by decide, by decide⟩
  have hsignature : stack.signatureParams TypeTable.standard = .ok stackParams := by
    rw [stackParams]
    repeat rw [String.toList_ofList]
    decide +kernel
  obtain ⟨docLines, hdoc⟩ : ∃ docLines, docstringLines stack stackDoc = .ok docLines := ⟨_, rfl⟩
  have hheading : stack.headingLayout 3 stackParams = (fill 12 ' ' ++ "def stack(") ::
      (itemLines (fill 12 ' ') stackParams ++ [fill 12 ' ' ++ ") -> Output:"]) := by
    rw [stackParams]
    repeat rw [String.toList_ofList]
    decide +kernel
  have hcall : callLayout (3 + 1) "desc" "OperationDescription" stack.descriptionArguments =
      (fill 16 ' ' ++ "desc = OperationDescription(") :: (itemLines (fill 16 ' ')
        ["self", "\"Stack\"", "self.make_name(\"Stack\", name)"] ++ [fill 16 ' ' ++ [')']]) := by
    rw [descriptionArguments]
    repeat rw [String.toList_ofList]
    decide
  obtain ⟨p, docstring, -, hparams, hwritten, hlines, -⟩ :=
    lines_format_emit (by decide : Binding.typed ≠ .base) hnames
      (annotated_of_signatureParams hsignature) hdoc 3
  obtain ⟨w, hw⟩ := hwritten (by decide)
  have hlines := hlines w hw
  have hparams : stackParams = p.params := Except.ok.inj (hsignature.symm.trans hparams)
  -- The documentation of the sample has no triple quote, so the body is laid out as code.
  have heven := (closes_of_no_strays (strayRuns_stackDoc hdoc)).even
  rw [if_pos heven, ← hparams, hheading, Pieces.bodyLayout, hcall, List.append_assoc] at hlines
  exact ⟨hnames, w, hw, docstring, _, hlines⟩

/-- An operation with a longer name, so that the call that describes it is too long. -/
def placeholder : Operation := { name := "Placeholder" }

/-- Behind a summary of five quotes the scanner takes the statements that `emit` writes for a
docstring: the call that describes the operation stays on a line that is too long. -/
theorem lines_format_emit_placeholder :
    let doc : Documentation := { name := "Placeholder", summary := fill 5 '"' }
    let line : Text := "        desc = OperationDescription(self, \"Placeholder\", " ++
      "self.make_name(\"Placeholder\", name))"
    placeholder.AsciiNames ∧ lineLimit < line.length ∧
      ∃ w, placeholder.emit TypeTable.standard .graph doc { level := 1 } = .ok w ∧
        (lines (format w.value)).filter (startsWith · "        desc = ") = [line] := by
  intro doc line
  refine ⟨⟨by decide, by decide, by decide, by decide⟩, ?_, _, rfl, ?_⟩
  · simp only [line]
    rw [String.toList_ofList, String.toList_ofList]
    decide
  · -- The layout goes through the long lines again and again, so they are written out first.
    simp only [line]
    delta nameNote Binding.newDescription
    repeat rw [String.toList_ofList]
    decide +kernel

end Operation

end TypedOps
