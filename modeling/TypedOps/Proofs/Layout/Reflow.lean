import TypedOps.Proofs.Layout.Spacing
import TypedOps.Proofs.Layout.Wrap

/-!
# `TypedOps.Proofs.Layout.Reflow`: what laying out changes

Laying out is two passes over scanned lines, `respace` and `rewrap`. Neither makes nor destroys a
triple quote, so the lines of the result are scanned as the passes leave them
(`scan_lines_format`), whether or not the quotes of the text are balanced.

`Reflows` is the list of what may happen to the lines, one constructor for each. `Reflowed` is what
a reader wants to know of it: docstrings are as they were, code is as it was but for the long lines
that are wrapped, and nothing comes or goes but blank lines outside docstrings. `reflowed_format`
says so of every text.
-/

set_option autoImplicit false

namespace TypedOps.Layout

open Text

/-! ### The passes -/

/-- The lines that a scanned line is wrapped into by `formatLine`, with its mark on each. -/
def ScannedLine.formatted (line : ScannedLine) : List ScannedLine :=
  (formatLine line).map fun t => ⟨t, line.inDocstring⟩

/-- Scanned lines with each one `formatted`, which is the second pass over them. -/
def rewrap (ls : List ScannedLine) : List ScannedLine := ls.flatMap ScannedLine.formatted

/-- What may happen to lines as `respaceFrom` and `rewrap` lay them out, one constructor for each
thing that does. -/
inductive Reflows : List ScannedLine → List ScannedLine → Prop
  | nil : Reflows [] []
  /-- A line of a docstring stays. -/
  | docstring {ls ms : List ScannedLine} (line : ScannedLine) (hmark : line.inDocstring = true) :
      Reflows ls ms → Reflows (line :: ls) (line :: ms)
  /-- A line that is not too long stays. -/
  | short {ls ms : List ScannedLine} (line : ScannedLine) (hshort : line.text.length ≤ lineLimit) :
      Reflows ls ms → Reflows (line :: ls) (line :: ms)
  /-- A line of code that is too long is wrapped. -/
  | long {ls ms : List ScannedLine} (line : Text) (hlong : lineLimit < line.length) :
      Reflows ls ms → Reflows (⟨line, false⟩ :: ls) (unmarked (wrapLine line) ++ ms)
  /-- A blank line outside docstrings goes. -/
  | removed {ls ms : List ScannedLine} (blank : Text) (hblank : isBlankLine blank = true) :
      Reflows ls ms → Reflows (⟨blank, false⟩ :: ls) ms
  /-- A blank line outside docstrings comes. -/
  | added {ls ms : List ScannedLine} (blank : Text) (hblank : isBlankLine blank = true) :
      Reflows ls ms → Reflows ls (⟨blank, false⟩ :: ms)

/-- What laying out keeps of scanned lines, and what it changes. It is read off the relation
`Reflows`. -/
structure Reflowed (source result : List ScannedLine) : Prop where
  /-- The lines of docstrings are the same. -/
  docstrings : result.filter ScannedLine.inDocstring = source.filter ScannedLine.inDocstring
  /-- The lines that are not blank are the same among those of docstrings, but for the long ones,
  and those are wrapped. -/
  code : result.filter ScannedLine.isSolid =
    (source.filter ScannedLine.isSolid).flatMap ScannedLine.formatted
  /-- Beyond that only blank lines outside docstrings come and go. -/
  edits : Reflows source result

/-! ### One line -/

/-- A line is turned by `formatLine` into at least one line, so no line is dropped by the second
pass. -/
theorem formatLine_ne_nil {line : ScannedLine} (hone : OneLine line.text) :
    formatLine line ≠ [] := by
  rw [formatLine]
  split
  · rcases wrapLine_cases hone with hsame | ⟨u, -, hlines⟩
    · simp [hsame]
    · simp [hlines, Unfolding.lines]
  · simp

/-- A line of a docstring stays `formatted` as it is, however long. -/
theorem formatted_of_inDocstring {line : ScannedLine} (h : line.inDocstring = true) :
    line.formatted = [line] := by
  obtain ⟨text, flag⟩ := line
  subst h
  rfl

/-- A line within `lineLimit` stays. -/
theorem formatted_of_length_le {line : ScannedLine} (h : line.text.length ≤ lineLimit) :
    line.formatted = [line] := by
  simp [ScannedLine.formatted, formatLine, Nat.not_lt.mpr h]

/-- A line of code beyond `lineLimit` becomes the lines of `wrapLine`. -/
theorem formatted_of_lt_length {line : Text} (h : lineLimit < line.length) :
    (ScannedLine.mk line false).formatted = unmarked (wrapLine line) := by
  simp [ScannedLine.formatted, formatLine, h, unmarked]

/-- A line that `wrapLine` does not change stays, also if it is too long. -/
theorem formatted_of_wrapLine {line : ScannedLine} (h : wrapLine line.text = [line.text]) :
    line.formatted = [line] := by
  rw [ScannedLine.formatted, formatLine, h]
  simp

/-- A blank line stays `formatted` as it is, however long. -/
theorem formatted_of_isBlankLine {line : ScannedLine} (hone : OneLine line.text)
    (h : isBlankLine line.text = true) : line.formatted = [line] :=
  formatted_of_wrapLine (wrapLine_of_isBlankLine hone h)

/-- The three things that a line may be when `formatted`: a docstring's stays, a short one stays,
and a long one of code is wrapped. -/
theorem formatted_cases (line : ScannedLine) :
    line.inDocstring = true ∧ line.formatted = [line] ∨
      line.text.length ≤ lineLimit ∧ line.formatted = [line] ∨
      ∃ text, line = ⟨text, false⟩ ∧ lineLimit < text.length ∧
        line.formatted = unmarked (wrapLine text) := by
  obtain ⟨text, flag⟩ := line
  cases flag with
  | true => exact .inl ⟨rfl, formatted_of_inDocstring rfl⟩
  | false =>
    rcases Nat.lt_or_ge lineLimit text.length with hlong | hshort
    · exact .inr (.inr ⟨text, rfl, hlong, formatted_of_lt_length hlong⟩)
    · exact .inr (.inl ⟨hshort, formatted_of_length_le hshort⟩)

/-- Lines are wrapped by `rewrap` one by one, the first line before the rest. -/
theorem rewrap_cons (line : ScannedLine) (ls : List ScannedLine) :
    rewrap (line :: ls) = line.formatted ++ rewrap ls :=
  List.flatMap_cons

/-- Two parts are wrapped by `rewrap` each for itself. -/
theorem rewrap_append (ls ms : List ScannedLine) : rewrap (ls ++ ms) = rewrap ls ++ rewrap ms :=
  List.flatMap_append

/-- Lines each of which stays are left alone by `rewrap` together. -/
theorem rewrap_eq_self {ls : List ScannedLine} (h : ∀ line ∈ ls, line.formatted = [line]) :
    rewrap ls = ls := by
  induction ls with
  | nil => rfl
  | cons line ls ih =>
    obtain ⟨hline, hrest⟩ := List.forall_mem_cons.mp h
    rw [rewrap_cons, hline, ih hrest]
    rfl

/-- Blank lines outside docstrings are left alone by `rewrap`. -/
theorem rewrap_unmarked {blanks : List Text} (hblanks : ∀ t ∈ blanks, isBlankLine t = true)
    (hone : ∀ t ∈ blanks, OneLine t) : rewrap (unmarked blanks) = unmarked blanks := by
  refine rewrap_eq_self fun line hline => ?_
  obtain ⟨t, ht, rfl⟩ := List.mem_map.mp hline
  exact formatted_of_isBlankLine (hone t ht) (hblanks t ht)

/-! ### What may happen -/

/-- Blank lines outside docstrings may be removed under `Reflows`, as many as there are. -/
theorem Reflows.removed_all {blanks : List Text} (hblanks : ∀ t ∈ blanks, isBlankLine t = true)
    {ls ms : List ScannedLine} (h : Reflows ls ms) : Reflows (unmarked blanks ++ ls) ms := by
  induction blanks with
  | nil => exact h
  | cons line blanks ih =>
    obtain ⟨hline, hrest⟩ := List.forall_mem_cons.mp hblanks
    exact .removed line hline (ih hrest)

/-- Blank lines outside docstrings may be added under `Reflows`, as many as wanted. -/
theorem Reflows.added_all {blanks : List Text} (hblanks : ∀ t ∈ blanks, isBlankLine t = true)
    {ls ms : List ScannedLine} (h : Reflows ls ms) : Reflows ls (unmarked blanks ++ ms) := by
  induction blanks with
  | nil => exact h
  | cons line blanks ih =>
    obtain ⟨hline, hrest⟩ := List.forall_mem_cons.mp hblanks
    exact .added line hline (ih hrest)

/-- Each line may become under `Reflows` what it is wrapped into. -/
theorem Reflows.formatted (line : ScannedLine) {ls ms : List ScannedLine} (h : Reflows ls ms) :
    Reflows (line :: ls) (line.formatted ++ ms) := by
  rcases formatted_cases line with ⟨hmark, heq⟩ | ⟨hshort, heq⟩ | ⟨text, rfl, hlong, heq⟩
  · rw [heq]
    exact .docstring line hmark h
  · rw [heq]
    exact .short line hshort h
  · rw [heq]
    exact .long text hlong h

/-- Both passes do nothing else than `Reflows` allows. The blank lines that wait are removed, and
the spaced ones are added. -/
theorem reflows_rewrap_respaceFrom (above : Above) (blanks : List Text) {ls : List ScannedLine}
    (hblanks : ∀ t ∈ blanks, isBlankLine t = true) (hone : ∀ t ∈ blanks, OneLine t)
    (hls : ∀ line ∈ ls, OneLine line.text) :
    Reflows (unmarked blanks ++ ls) (rewrap (respaceFrom above blanks ls)) := by
  induction ls generalizing above blanks with
  | nil =>
    have hkept : ∀ t ∈ kept above blanks, isBlankLine t = true := fun t ht =>
      hblanks t (mem_of_mem_kept ht)
    rw [respaceFrom, rewrap_unmarked hkept fun t ht => hone t (mem_of_mem_kept ht)]
    have hadded := Reflows.added_all hkept .nil
    rw [List.append_nil] at hadded
    exact .removed_all hblanks hadded
  | cons line ls ih =>
    obtain ⟨hline, hrest⟩ := List.forall_mem_cons.mp hls
    rw [respaceFrom]
    split
    -- A line that is solid ends the wait: the blank ones are removed, the spaced ones are added,
    -- and the line is formatted.
    · have hspacing := isBlankLine_of_mem_spacing above hblanks line
      have hbehind := ih line.above [] (by simp) (by simp) hrest
      rw [rewrap_append, rewrap_unmarked hspacing (oneLine_of_mem_spacing hone),
        rewrap_cons]
      exact .removed_all hblanks (.added_all hspacing (.formatted line hbehind))
    · next hsolid =>
      -- A blank line joins those that wait, so the induction is on the lines for all waiting ones.
      obtain ⟨hmark, hblank⟩ := isBlankLine_of_not_isSolid (Bool.eq_false_iff.mpr hsolid)
      obtain ⟨text, flag⟩ := line
      subst hmark
      have hwait := ih above (blanks ++ [text])
        (List.forall_mem_append.mpr ⟨hblanks, List.forall_mem_singleton.mpr hblank⟩)
        (List.forall_mem_append.mpr ⟨hone, List.forall_mem_singleton.mpr hline⟩) hrest
      rwa [unmarked, List.map_append, List.append_assoc] at hwait

/-- What `Reflows` allows leaves the lines of docstrings alone. -/
theorem Reflows.docstrings_eq {source result : List ScannedLine} (h : Reflows source result) :
    result.filter ScannedLine.inDocstring = source.filter ScannedLine.inDocstring := by
  induction h with
  | nil => rfl
  | docstring line hmark _ ih => simp [hmark, ih]
  | short line _ _ ih => simp only [List.filter_cons, ih]
  | long line _ _ ih =>
    have hcode : (unmarked (wrapLine line)).filter ScannedLine.inDocstring = [] := by
      simp [unmarked]
    simp [hcode, ih]
  | removed blank _ _ ih => simp [ih]
  | added blank _ _ ih => simp [ih]

/-- What `Reflows` allows keeps every line of code that is not blank, or wraps it. -/
theorem Reflows.code_eq {source result : List ScannedLine} (h : Reflows source result)
    (hone : ∀ line ∈ source, OneLine line.text) :
    result.filter ScannedLine.isSolid =
      (source.filter ScannedLine.isSolid).flatMap ScannedLine.formatted := by
  induction h with
  | nil => rfl
  | docstring line hmark _ ih =>
    have hsolid : line.isSolid = true := by simp [ScannedLine.isSolid, hmark]
    rw [List.filter_cons_of_pos hsolid, List.filter_cons_of_pos hsolid, List.flatMap_cons,
      formatted_of_inDocstring hmark, ih (List.forall_mem_cons.mp hone).2]
    rfl
  | short line hshort _ ih =>
    rw [List.filter_cons, List.filter_cons, ih (List.forall_mem_cons.mp hone).2]
    split
    · rw [List.flatMap_cons, formatted_of_length_le hshort]
      rfl
    · rfl
  | long line hlong _ ih =>
    obtain ⟨hline, hrest⟩ := List.forall_mem_cons.mp hone
    rw [List.filter_append, ih hrest]
    -- A long line that is blank is not wrapped, and no part of a wrapped one is blank.
    cases hblank : isBlankLine line with
    | true =>
      rw [wrapLine_of_isBlankLine hline hblank]
      simp [unmarked, hblank]
    | false =>
      have hparts : (unmarked (wrapLine line)).filter ScannedLine.isSolid =
          unmarked (wrapLine line) := by
        refine List.filter_eq_self.mpr fun part hpart => ?_
        obtain ⟨t, ht, rfl⟩ := List.mem_map.mp hpart
        simp [not_blank_of_mem_wrapLine hline hblank ht]
      rw [List.filter_cons_of_pos (by simp [hblank]), List.flatMap_cons, hparts,
        formatted_of_lt_length hlong]
  | removed blank hblank _ ih =>
    rw [List.filter_cons_of_neg (by simp [hblank]), ih (List.forall_mem_cons.mp hone).2]
  | added blank hblank _ ih =>
    rw [List.filter_cons_of_neg (by simp [hblank]), ih hone]

/-! ### Texts -/

/-- Lines with which the scanner `Agrees` are so once they are wrapped, since no wrapped line has a
triple quote. -/
theorem agrees_rewrap {inside : Bool} {ls : List ScannedLine} (h : Agrees inside ls)
    (hone : ∀ line ∈ ls, OneLine line.text) : Agrees inside (rewrap ls) := by
  induction ls generalizing inside with
  | nil => exact h
  | cons line ls ih =>
    obtain ⟨hline, hrest⟩ := List.forall_mem_cons.mp hone
    obtain ⟨hflag, hagrees⟩ := (agrees_cons inside line ls).mp h
    have hbehind := ih hagrees hrest
    rw [rewrap_cons]
    rcases formatted_cases line with ⟨-, heq⟩ | ⟨-, heq⟩ | ⟨text, rfl, -, heq⟩
    · rw [heq]
      exact (agrees_cons inside line _).mpr ⟨hflag, hbehind⟩
    · rw [heq]
      exact (agrees_cons inside line _).mpr ⟨hflag, hbehind⟩
    · -- The line stands outside and has no quotes, and neither have its parts.
      obtain ⟨rfl, hquotes⟩ : inside = false ∧ tripleQuotes text = 0 := by simpa using hflag
      rw [hquotes, bne_bare] at hbehind
      rw [heq]
      exact (agrees_unmarked_append
        (fun t ht => tripleQuotes_of_mem_wrapLine hline hquotes ht) _).mpr hbehind

/-- The texts of wrapped lines are those of `formatLine`, line by line. -/
theorem map_text_rewrap (ls : List ScannedLine) :
    (rewrap ls).map ScannedLine.text = ls.flatMap formatLine := by
  simp [rewrap, ScannedLine.formatted, List.map_flatMap, Function.comp_def]

/-- To `scan` the wrapped lines marks them as they were before. -/
theorem scan_wrapLines {ls : List Text} (hone : ∀ l ∈ ls, OneLine l) :
    scan (wrapLines ls) = rewrap (scan ls) := by
  have hscan : ∀ line ∈ scan ls, OneLine line.text := fun _ hline =>
    hone _ (text_mem_of_mem_scan hline)
  rw [wrapLines, ← map_text_rewrap]
  exact agrees_rewrap (agrees_scan ls) hscan

/-- The lines of `wrapLines` stand on one line each, so they are the lines of the laid out text. -/
theorem oneLine_of_mem_wrapLines {ls : List Text} (hone : ∀ l ∈ ls, OneLine l) :
    ∀ l ∈ wrapLines ls, OneLine l := by
  intro l hl
  obtain ⟨line, hline, hmem⟩ := List.mem_flatMap.mp hl
  have hone' : OneLine line.text := hone _ (text_mem_of_mem_scan hline)
  rw [formatLine] at hmem
  split at hmem
  · exact oneLine_of_mem_wrapLine hone' hmem
  · rw [List.mem_singleton] at hmem
    rw [hmem]
    exact hone'

/-- There are lines in `wrapLines` if there were lines. -/
theorem wrapLines_ne_nil {ls : List Text} (hne : ls ≠ []) (hone : ∀ l ∈ ls, OneLine l) :
    wrapLines ls ≠ [] := by
  obtain ⟨line, rest, rfl⟩ := List.exists_cons_of_ne_nil hne
  intro hnil
  rw [wrapLines, scan, scanFrom_cons, List.flatMap_cons, List.append_eq_nil_iff] at hnil
  exact formatLine_ne_nil (hone line List.mem_cons_self) hnil.1

/-- The `lines` of laid out code are what both passes make of its lines. -/
theorem lines_format (code : Text) :
    lines (format code) = wrapLines (normalizeBlankLines (lines code)) := by
  have hone := oneLine_of_mem_normalizeBlankLines fun _ => oneLine_of_mem_lines (t := code)
  refine lines_unlines ?_ (oneLine_of_mem_wrapLines hone)
  exact wrapLines_ne_nil (normalizeBlankLines_ne_nil (splitOn_ne_nil '\n' code)) hone

/-- To `scan` the lines of laid out code marks them as the passes over scanned lines leave them. -/
theorem scan_lines_format (code : Text) :
    scan (lines (format code)) = rewrap (respace (scan (lines code))) := by
  have hone := oneLine_of_mem_normalizeBlankLines fun _ => oneLine_of_mem_lines (t := code)
  rw [lines_format, scan_wrapLines hone, scan_normalizeBlankLines]

/-- To `format` any text leaves docstrings alone and loses no code. -/
theorem reflowed_format (code : Text) :
    Reflowed (scan (lines code)) (scan (lines (format code))) := by
  have hone : ∀ line ∈ scan (lines code), OneLine line.text := fun _ hline =>
    oneLine_of_mem_lines (text_mem_of_mem_scan hline)
  have hedits : Reflows (scan (lines code)) (scan (lines (format code))) := by
    rw [scan_lines_format]
    exact reflows_rewrap_respaceFrom .start [] (by simp) (by simp) hone
  exact ⟨hedits.docstrings_eq, hedits.code_eq hone, hedits⟩

end TypedOps.Layout
