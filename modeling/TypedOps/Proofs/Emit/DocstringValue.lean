import TypedOps.Proofs.Emit.Escape
import TypedOps.Proofs.Text.Digits
import TypedOps.Proofs.Text.TripleQuoted

/-!
# `TypedOps.Proofs.Emit.DocstringValue`: a written docstring reads back as its lines

`docstringBlock` escapes backslashes, then triple quotes, then control characters. Read
by `TripleQuoted.read?`, each pass is undone and none of them is needed twice: a doubled
backslash covers only its copy, an escaped quote is a quote, and the bare quotes left
behind an escaped run are at most two, with something else behind them.

* `spells_escapedDocLine`: an escaped line is read as the line.
* `cut?_escapedDocLine_append`: it does not end the literal if no quote follows.
* `read?_docstringBlock`: what a writer writes for a docstring, at any level, is read
  up to its own closing quotes whatever stands behind them, and its value is the lines
  with the writer's indentation.
-/

set_option autoImplicit false

namespace TypedOps

open Text
open Text.TripleQuoted

/-! ### Control characters and backslashes -/

/-- An ASCII character written as its number behind a backslash `Spells` the character. -/
theorem spells_number {c : Char} (hc : c.toNat < 128) :
    Spells literalEscape? (fun c => [c]) ('\\' :: 'x' :: padded 16 2 c.toNat) [c] := by
  have hrange : c.toNat < 16 ^ (1 + 1) := by omega
  refine spells_escape fun rest => ?_
  rw [List.cons_append, literalEscape?, if_neg (by decide), if_pos rfl, numbered?_padded hrange,
    List.length_cons, length_padded (by decide) 1 hrange]

/-- What `escapedOther` makes of a code point other than a quote is read as the code point. -/
theorem spells_escapedOther {c : Char} (hc : c ≠ '"') :
    Spells literalEscape? (fun c => [c]) (escapedOther c) [c] := by
  rw [escapedOther]
  split
  · next hback =>
    subst hback
    exact spells_escape fun rest => rfl
  · next hback =>
    rw [List.flatMap_singleton, escapedControl]
    split
    · next hcontrol =>
      -- A control character has a number below 128, so two digits are enough.
      refine spells_number ?_
      simp at hcontrol
      omega
    · exact spells_plain hback

/-- What `escapedOther` makes of a code point other than a quote does not end a literal. -/
theorem closed_escapedOther {c : Char} (hc : c ≠ '"') : Closed (escapedOther c) := by
  rw [escapedOther]
  split
  · exact closed_pair (by decide)
  · next hback =>
    rw [List.flatMap_singleton, escapedControl]
    split
    · next hcontrol =>
      exact (closed_pair (by decide)).append (inert_padded 2 c.toNat).closed
    · next hcontrol =>
      refine closed_singleton hc hback ?_
      -- The characters that may not stand are control characters.
      rw [mayStand, Bool.and_eq_true, bne_iff_ne, bne_iff_ne]
      constructor <;> rintro rfl <;> exact hcontrol (by decide)

/-! ### Runs of quotes -/

/-- What `escapedRun` makes of a run of quotes is read as the run. -/
theorem spells_escapedRun (n : Nat) :
    Spells literalEscape? (fun c => [c]) (escapedRun n) (fill n '"') := by
  have hquote : Spells literalEscape? (fun c => [c]) ['\\', '"'] ['"'] :=
    spells_escape fun rest => rfl
  have htriple : Spells literalEscape? (fun c => [c]) "\\\"\\\"\\\"" (fill 3 '"') :=
    (hquote.append hquote).append hquote
  -- The run is cut into triples, which are escaped, and at most two quotes more, which are not.
  have htriples : ∀ k, Spells literalEscape? (fun c => [c])
      (List.replicate k ("\\\"\\\"\\\"" : Text)).flatten (fill (3 * k) '"') := by
    intro k
    induction k with
    | zero => exact spells_nil
    | succ k ih =>
      rw [List.replicate_succ, List.flatten_cons, show 3 * (k + 1) = 3 + 3 * k by omega, fill,
        ← List.replicate_append_replicate]
      exact htriple.append ih
  have hrest : Spells literalEscape? (fun c => [c]) (fill (n % 3) '"') (fill (n % 3) '"') :=
    spells_self fun hmem => absurd (List.eq_of_mem_replicate hmem) (by decide)
  have h := (htriples (n / 3)).append hrest
  rwa [fill, fill, List.replicate_append_replicate, Nat.div_add_mod] at h

/-- What `escapedRun` makes of a run of quotes does not end a literal unless another quote follows,
with which a rest of the run could make three. -/
theorem cut?_escapedRun_append (n : Nat) {rest : Text} (h : rest.head? ≠ some '"') :
    cut? (escapedRun n ++ rest) = (cut? rest).map (prepend (escapedRun n)) := by
  have hquote : Closed ['\\', '"'] := closed_pair (by decide)
  have htriple : Closed "\\\"\\\"\\\"" := (hquote.append hquote).append hquote
  have htriples : Closed (List.replicate (n / 3) ("\\\"\\\"\\\"" : Text)).flatten := by
    rw [← List.flatMap_id]
    refine closed_flatMap fun s hs => ?_
    rw [List.eq_of_mem_replicate hs]
    exact htriple
  rw [escapedRun, List.append_assoc, htriples, cut?_fill_append (Nat.mod_lt n (by omega)) h,
    map_prepend_prepend]

/-! ### Lines -/

/-- An escaped line `Spells` the line itself, by induction over its runs of quotes. -/
theorem spells_escapedDocLine (line : Text) :
    Spells literalEscape? (fun c => [c]) (escapedDocLine line) line := by
  induction line using runInduction with
  | last n =>
    rw [escapedDocLine_fill]
    exact spells_escapedRun n
  | run n c t hc ih =>
    rw [escapedDocLine_fill_append_cons n hc]
    exact (spells_escapedRun n).append ((spells_escapedOther hc).append ih)

/-- For `cut?`, an escaped line does not end a literal if no quote follows it. -/
theorem cut?_escapedDocLine_append (line : Text) {rest : Text} (h : rest.head? ≠ some '"') :
    cut? (escapedDocLine line ++ rest) = (cut? rest).map (prepend (escapedDocLine line)) := by
  induction line using runInduction with
  | last n =>
    rw [escapedDocLine_fill]
    exact cut?_escapedRun_append n h
  | run n c t hc ih =>
    rw [escapedDocLine_fill_append_cons n hc, List.append_assoc, List.append_assoc,
      cut?_escapedRun_append n (head?_escapedOther_append hc _), closed_escapedOther hc, ih,
      map_prepend_prepend, map_prepend_prepend, List.append_assoc]

/-- A line is empty exactly when its `escapedDocLine` is, so the writer indents the same lines. -/
theorem isEmpty_escapedDocLine (line : Text) : (escapedDocLine line).isEmpty = line.isEmpty := by
  cases hline : escapedDocLine line with
  | nil =>
    have hread := (spells_escapedDocLine line).readEscapes_eq
    rw [hline, readEscapes, Option.some.injEq] at hread
    rw [← hread]
  | cons d s =>
    cases line with
    | nil => cases hline
    | cons c t => rfl

/-- The `indentation` is read as itself, since spaces are not escaped. -/
theorem spells_indentation (level : Int) :
    Spells literalEscape? (fun c => [c]) (indentation level) (indentation level) :=
  spells_self fun hmem => absurd (List.eq_of_mem_replicate hmem) (by decide)

/-- The `indentation` is `Closed`: it does not end a literal. -/
theorem closed_indentation (level : Int) : Closed (indentation level) := by
  refine Inert.closed fun c hc => ?_
  rw [List.eq_of_mem_replicate hc]
  decide

/-- An escaped line `indented` to a level, with its line feed, is read as the line at that level. -/
theorem spells_indented (level : Int) (line : Text) :
    Spells literalEscape? (fun c => [c]) (indented level (escapedDocLine line) ++ ['\n'])
      (indented level line ++ ['\n']) := by
  refine Spells.append ?_ (spells_plain (by decide))
  rw [indented, indented, isEmpty_escapedDocLine]
  split
  · exact spells_nil
  · exact (spells_indentation level).append (spells_escapedDocLine line)

/-- An escaped line with its line feed is `Closed`: it does not end a literal, because no quote
follows the line. -/
theorem closed_line (line : Text) : Closed (escapedDocLine line ++ ['\n']) := by
  have hfeed : Closed ['\n'] := closed_singleton (by decide) (by decide) (by decide)
  intro rest
  rw [List.append_assoc, cut?_escapedDocLine_append line (by simp), hfeed, map_prepend_prepend]

/-- An escaped line `indented` to a level, with its line feed, does not end a literal. -/
theorem closed_indented (level : Int) (line : Text) :
    Closed (indented level (escapedDocLine line) ++ ['\n']) := by
  rw [indented]
  split
  · exact closed_singleton (by decide) (by decide) (by decide)
  · rw [List.append_assoc]
    exact (closed_indentation level).append (closed_line line)

/-! ### Docstrings -/

/-- The value of a `docstringBlock` written at a level. The first line stands behind the opening
quotes, every other one behind the writer's indentation unless it is empty, and the closing quotes
behind the indentation alone. -/
def docstringValue (level : Int) (lines : List Text) : Text :=
  unlines (lines.headD [] :: lines.tail.map (indented level) ++ [indentation level])

/-- The `value` of a writer is its lines, each ended by a line feed. -/
theorem Writer.value_eq (w : Writer) : w.value = w.lines.flatMap (· ++ ['\n']) := by
  rw [Writer.value]
  split
  · next hempty => rw [List.isEmpty_iff.mp hempty, List.flatMap_nil]
  · next hne => exact unlines_linefeed (by simpa using hne)

/-- The lines of a `docstringBlock`: the opening quotes stand in front of the first one, and the
closing ones on a line of their own. -/
theorem docstringBlock_eq (lines : List Text) :
    docstringBlock lines = ((tripleQuote ++ escapedDocLine (lines.headD [])) ::
      (lines.tail.map escapedDocLine ++ [tripleQuote])).map fun t => { text := t } := by
  cases lines <;> rfl

/-- What a `docstringBlock` at a level puts between the quotes of a docstring, line feeds and
indentation included. -/
def docstringBody (level : Int) (lines : List Text) : Text :=
  escapedDocLine (lines.headD []) ++ ['\n'] ++
    lines.tail.flatMap (fun line => indented level (escapedDocLine line) ++ ['\n']) ++
    indentation level

/-- The `docstringBody` does not end the literal, so this ends at the closing quotes of its own. -/
theorem closed_docstringBody (level : Int) (lines : List Text) :
    Closed (docstringBody level lines) :=
  ((closed_line (lines.headD [])).append
    (closed_flatMap fun line _ => closed_indented level line)).append (closed_indentation level)

/-- The body of a docstring is read as its `docstringValue`. -/
theorem spells_docstringBody (level : Int) (lines : List Text) :
    Spells literalEscape? (fun c => [c]) (docstringBody level lines)
      (docstringValue level lines) := by
  have hfeed : Spells literalEscape? (fun c => [c]) ['\n'] ['\n'] := spells_plain (by decide)
  have hfirst := (spells_escapedDocLine (lines.headD [])).append hfeed
  rw [docstringValue, unlines_concat, List.flatMap_cons, List.flatMap_map]
  exact (hfirst.append (spells_flatMap fun line _ => spells_indented level line)).append
    (spells_indentation level)

/-- For a `docstringBlock`, a writer adds its body between quotes, behind its own indentation. -/
theorem Writer.value_docstringBlock (w : Writer) (lines : List Text) :
    (w.block (docstringBlock lines)).value =
      w.value ++ (indentation w.level ++
        (tripleQuote ++ docstringBody w.level lines ++ tripleQuote) ++ ['\n']) := by
  have hrender : ∀ t : Text, Line.render w.level { text := t } = indented w.level t := by
    intro t
    simp [Line.render]
  -- The lines with quotes are not empty, so they carry the indentation.
  have hopening : indented w.level (tripleQuote ++ escapedDocLine (lines.headD [])) =
      indentation w.level ++ (tripleQuote ++ escapedDocLine (lines.headD [])) := rfl
  have hclosing : indented w.level tripleQuote = indentation w.level ++ tripleQuote := rfl
  rw [Writer.value_eq, Writer.value_eq, Writer.block, List.flatMap_append, docstringBlock_eq,
    List.map_map, docstringBody]
  simp only [Function.comp_def, hrender, hopening, hclosing, List.map_cons, List.map_append,
    List.map_nil, List.map_map, List.flatMap_cons, List.flatMap_append, List.flatMap_nil,
    List.flatMap_map, List.append_assoc, List.append_nil]

/-- A `docstringBlock`, at any level and behind anything written before, is a literal that is read
up to its own closing quotes. Its value is the lines it was written from. -/
theorem read?_docstringBlock (w : Writer) (lines : List Text) :
    ∃ literal, (w.block (docstringBlock lines)).value =
        w.value ++ (indentation w.level ++ literal ++ ['\n']) ∧
      ∀ rest, read? (literal ++ rest) = some (docstringValue w.level lines, rest) :=
  ⟨tripleQuote ++ docstringBody w.level lines ++ tripleQuote, w.value_docstringBlock lines,
    read?_eq_some (closed_docstringBody w.level lines) (spells_docstringBody w.level lines)⟩

/-- Five quotes right behind the opening ones, a null, and a backslash at the end. -/
example :
    read? (tripleQuote ++ docstringBody 1 ["\"\"\"\"\"", ['\x00'], [], "C:\\"] ++
        (tripleQuote ++ [')'])) =
      some (unlines ["\"\"\"\"\"", "    \x00", [], "    C:\\", "    "], [')']) := by
  decide

end TypedOps
