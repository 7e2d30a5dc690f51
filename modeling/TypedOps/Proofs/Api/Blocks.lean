import TypedOps.Proofs.Api.Override

/-!
# `TypedOps.Proofs.Api.Blocks`: a text is cut into lines and blocks

`Opening` is the pattern of an opening line, with its parts. A `Block` goes from an opening line
to the first line behind it that holds only the word, and a `Segment` is a block or a line that
opens none. Reading from the left, a text is cut into segments in one way, unless a block is left
open. Everything that `convert` does is said in these terms.

* `exists_opening`: whatever the scanner takes for an opening line has the parts of the pattern.
* `segmented`: some lines are segments, or segments with a block behind them that nothing closes.
* `convert_blocks`: `convert` fails just where a block is left open. Elsewhere it gives the text
  with one line for each segment, which opens nothing and is converted to itself.
-/

set_option autoImplicit false

namespace TypedOps.Api.Heredoc

open Text

/-- An opening line with its parts in places of their own: a name with white space around it, a
colon, the mark `<<` and a word. The proof fields say which code points may stand in which part. -/
structure Opening where
  indent : Text
  name : Text
  gap : Text
  space : Text
  word : Text
  tail : Text
  blank : ∀ c ∈ indent ++ gap ++ space ++ tail, isBlank c = true
  named : name ≠ [] ∧ ∀ c ∈ name, isWord c = true
  worded : word ≠ [] ∧ ∀ c ∈ word, isWord c = true

/-- What stands in front of the mark of an `Opening`. It is what the converted line begins with
(`quotedLine`), and what `opening?` gives back beside the word. -/
def Opening.start (o : Opening) : Text := o.indent ++ o.name ++ o.gap ++ ":" ++ o.space

/-- The whole line that an `Opening` stands for. Nothing but white space may follow the word. -/
def Opening.line (o : Opening) : Text := o.start ++ "<<" ++ o.word ++ o.tail

/-- A block of a document: an `Opening`, lines that do not close it, and the first line behind them
that holds only its word. -/
structure Block where
  opening : Opening
  body : List Text
  closing : Text
  kept : ∀ l ∈ body, strip l ≠ opening.word
  closes : strip closing = opening.word

/-- The unit that a text is cut into: a line that opens no block, with the proof that it is no
`Opening.line`, or a `Block`. -/
inductive Segment where
  | line (text : Text) (outside : ∀ o : Opening, o.line ≠ text)
  | block (b : Block)

namespace Segment

/-- The lines that a `Segment` takes up in the text: one of its own, or all lines of its block. -/
def lines : Segment → List Text
  | line text _ => [text]
  | block b => b.opening.line :: (b.body ++ [b.closing])

/-- The one line that `convert` puts in the place of a `Segment`. A line outside blocks stays, and a
block becomes its `quotedLine`. -/
def converted : Segment → Text
  | line text _ => text
  | block b => quotedLine b.opening.start b.body

end Segment

/-! ### Opening lines -/

/-- What `Opening.blank` says of all four gaps together, for each gap by itself. In this form
`span_append` can cut at them. -/
theorem Opening.blank_parts (o : Opening) :
    (∀ c ∈ o.indent, isBlank c = true) ∧ (∀ c ∈ o.gap, isBlank c = true) ∧
      (∀ c ∈ o.space, isBlank c = true) ∧ ∀ c ∈ o.tail, isBlank c = true := by
  have hblank := o.blank
  simp only [List.forall_mem_append] at hblank
  exact ⟨hblank.1.1.1, hblank.1.1.2, hblank.1.2, hblank.2⟩

/-- Behind `Opening.start` the scanner has read everything up to the mark, so what `opening?`
answers depends only on what stands in place of the mark. -/
theorem Opening.opening?_start_append (o : Opening) {rest : Text}
    (hrest : ∀ c ∈ rest.head?, isBlank c = false) :
    opening? (o.start ++ rest) =
      (afterStart? "<<" rest).bind fun rest =>
        if !(rest.span isWord).1.isEmpty && (rest.span isWord).2.all isBlank then
          some (o.start, (rest.span isWord).1)
        else none := by
  obtain ⟨hindent, hgap, hspace, -⟩ := o.blank_parts
  have hline : o.start ++ rest =
      o.indent ++ (o.name ++ (o.gap ++ ':' :: (o.space ++ rest))) := by
    simp [Opening.start]
  rw [hline, opening?_field_append hindent o.named hgap hspace hrest]
  rfl

/-- The scanner finds what an `Opening` begins with, and its word. The converse is `exists_opening`.
-/
theorem Opening.opening?_line (o : Opening) : opening? o.line = some (o.start, o.word) := by
  obtain ⟨-, -, -, htail⟩ := o.blank_parts
  have hline : o.line = o.start ++ ("<<" ++ (o.word ++ o.tail)) := by
    simp [Opening.line]
  -- The word ends where white space or the end of the line comes, so both spans below stop where
  -- the parts do.
  have hbehind : ∀ c ∈ o.tail.head?, isWord c = false :=
    fun c hc => isWord_of_isBlank (htail c (List.mem_of_mem_head? hc))
  have hword : (o.word ++ o.tail).span isWord = (o.word, o.tail) :=
    span_append o.worded.2 hbehind
  have hfilled : o.word.isEmpty = false := by
    simpa using o.worded.1
  have hmark : ∀ c ∈ ("<<" ++ (o.word ++ o.tail) : Text).head?, isBlank c = false := by
    intro c hc
    cases hc
    decide
  rw [hline, o.opening?_start_append hmark, afterStart?_append, Option.bind_some, hword]
  simp only [hfilled, List.all_eq_true.mpr htail]
  rfl

/-- Whatever `opening?` takes for an opening line is the line of an `Opening`. The parts are read
off the scanner's own cuts, one `exists_span` for each of them. -/
theorem exists_opening {line start word : Text} (h : opening? line = some (start, word)) :
    ∃ o : Opening, o.line = line ∧ o.start = start ∧ o.word = word := by
  obtain ⟨indent, rest, hspan, rfl, hindent, -⟩ := exists_span isBlank line
  obtain ⟨name, rest, hspan', rfl, hname, -⟩ := exists_span isWord rest
  obtain ⟨gap, rest, hspan'', rfl, hgap, -⟩ := exists_span isBlank rest
  simp only [opening?, hspan, hspan', hspan''] at h
  -- The cuts fix all parts but the mark and the word: what is left is that none of the scanner's
  -- tests failed.
  split at h
  · next c name rest =>
    obtain ⟨space, rest, hspan, rfl, hspace, -⟩ := exists_span isBlank rest
    simp only [hspan] at h
    split at h
    · next rest' hmark =>
      obtain rfl := eq_append_of_afterStart? hmark
      obtain ⟨found, tail, hspan, rfl, hword, -⟩ := exists_span isWord rest'
      simp only [hspan] at h
      split at h
      · next hends =>
        obtain ⟨rfl, rfl⟩ := Prod.mk.inj (Option.some.inj h)
        simp only [Bool.and_eq_true, Bool.not_eq_true', List.isEmpty_eq_false_iff,
          List.all_eq_true] at hends
        have hblank : ∀ c ∈ indent ++ gap ++ space ++ tail, isBlank c = true := by
          simp only [List.forall_mem_append]
          exact ⟨⟨⟨hindent, hgap⟩, hspace⟩, hends.2⟩
        let o : Opening := ⟨indent, c :: name, gap, space, found, tail, hblank,
          ⟨List.cons_ne_nil c name, hname⟩, ⟨hends.1, hword⟩⟩
        refine ⟨o, ?_, rfl, rfl⟩
        simp [o, Opening.line, Opening.start]
      · cases h
    · cases h
  · cases h

/-- A line that is the line of no `Opening` opens nothing, which is how `Segment.line` is used. -/
theorem opening?_eq_none {line : Text} (h : ∀ o : Opening, o.line ≠ line) :
    opening? line = none := by
  cases hopening : opening? line with
  | none => rfl
  | some found =>
    obtain ⟨o, hline, -⟩ := exists_opening hopening
    exact absurd hline (h o)

/-! ### Segments -/

namespace Segment

/-- A `Segment` becomes the one line `converted`, whatever stands behind it. Both constructors are
settled by the lemmas of `Heredoc` on single lines and blocks. -/
theorem converts (s : Segment) : Converts s.lines [s.converted] := by
  cases s with
  | line text outside => exact converts_line (opening?_eq_none outside)
  | block b => exact converts_opened b.opening.opening?_line b.kept b.closes

/-- Segments in a row become one line each, by `Converts.append`. -/
theorem converts_flatMap (segments : List Segment) :
    Converts (segments.flatMap lines) (segments.map converted) := by
  rw [List.map_eq_flatMap]
  exact relates_flatMap converts_nil Converts.append fun s _ => s.converts

/-- The line that a `Segment` becomes is the line of no `Opening`: where a block had its mark `<<`,
`quotedLine` has a quotation mark. -/
theorem line_ne_converted (s : Segment) (o : Opening) : o.line ≠ s.converted := by
  cases s with
  | line text outside => exact outside o
  | block b =>
    intro heq
    have hquoted : quotedLine b.opening.start b.body =
        b.opening.start ++ '"' :: (escape (unlines b.body) ++ ['"']) := by
      simp [quotedLine]
    -- The body stands behind a quotation mark, so the scanner finds no mark in it.
    have hnone : opening? (quotedLine b.opening.start b.body) = none := by
      rw [hquoted, b.opening.opening?_start_append (by simp; decide)]
      rfl
    have hsome := o.opening?_line
    rw [heq, show (block b).converted = quotedLine b.opening.start b.body from rfl, hnone] at hsome
    cases hsome

/-- The converted line as a `Segment` of its own. It shows that converting a second time changes
nothing. -/
def settled (s : Segment) : Segment := line s.converted s.line_ne_converted

/-- The converted line of a `Segment` holds no line feed where its lines hold none, since `escape`
writes line feeds out. -/
theorem oneLine_converted (s : Segment) (h : ∀ l ∈ s.lines, OneLine l) : OneLine s.converted := by
  cases s with
  | line text outside => exact h text List.mem_cons_self
  | block b =>
    have hopening : OneLine b.opening.line := h _ List.mem_cons_self
    simp only [Opening.line, oneLine_append] at hopening
    show OneLine (quotedLine b.opening.start b.body)
    simp only [quotedLine, oneLine_append]
    exact ⟨⟨⟨hopening.1.1.1, by decide⟩, oneLine_escape _⟩, by decide⟩

end Segment

/-- Lines that are cut into segments as far as possible: either to their end, or up to an `Opening`
whose block nothing closes. `segmented` shows that there is no other case. -/
def Segmented (ls : List Text) : Prop :=
  ∃ segments : List Segment, ls = segments.flatMap Segment.lines ∨
    ∃ (opening : Opening) (rest : List Text),
      ls = segments.flatMap Segment.lines ++ opening.line :: rest ∧
        ∀ l ∈ rest, strip l ≠ opening.word

/-- A `Segment` may stand in front of lines that are `Segmented`, in both of their cases. -/
theorem Segmented.cons (s : Segment) {rest : List Text} (h : Segmented rest) :
    Segmented (s.lines ++ rest) := by
  obtain ⟨segments, hclosed | ⟨o, behind, hopen, hbehind⟩⟩ := h
  · exact ⟨s :: segments, .inl (by rw [hclosed, List.flatMap_cons])⟩
  · refine ⟨s :: segments, .inr ⟨o, behind, ?_, hbehind⟩⟩
    rw [hopen, List.flatMap_cons, List.append_assoc]

/-- All lines are `Segmented`. The induction is on their number: the first line opens nothing, or
its block is closed by a line behind it, or nothing closes it. -/
theorem segmented (ls : List Text) : Segmented ls := by
  -- A block takes many lines at once, so the induction is on how many there are.
  induction hlength : ls.length using Nat.strong_induction_on generalizing ls with
  | _ n ih =>
    subst hlength
    cases ls with
    | nil => exact ⟨[], .inl rfl⟩
    | cons first rest =>
      by_cases hopens : ∃ o : Opening, o.line = first
      · obtain ⟨o, rfl⟩ := hopens
        cases hclosed : rest.find? (strip · = o.word) with
        | none =>
          have hkept : ∀ l ∈ rest, strip l ≠ o.word := by
            simpa using List.find?_eq_none.mp hclosed
          exact ⟨[], .inr ⟨o, rest, rfl, hkept⟩⟩
        | some closing =>
          -- The block ends with the first line that closes it.
          obtain ⟨hclosing, body, behind, rfl, hbody⟩ :=
            List.find?_eq_some_iff_append.mp hclosed
          have hkept : ∀ l ∈ body, strip l ≠ o.word := by simpa using hbody
          let b : Block := ⟨o, body, closing, hkept, by simpa using hclosing⟩
          have hshorter : behind.length < (o.line :: (body ++ closing :: behind)).length := by
            simp only [List.length_cons, List.length_append]
            omega
          have hlines : o.line :: (body ++ closing :: behind) =
              (Segment.block b).lines ++ behind := by
            simp [Segment.lines, b]
          rw [hlines]
          exact (ih _ hshorter behind rfl).cons (.block b)
      · have houtside : ∀ o : Opening, o.line ≠ first := fun o ho => hopens ⟨o, ho⟩
        exact (ih _ (Nat.lt_succ_self _) rest rfl).cons (.line first houtside)

/-- An opening line that nothing behind it closes makes `convertLines` fail, with the word of the
`Opening` as the fault. -/
theorem convertLines_open (o : Opening) {rest : List Text} (h : ∀ l ∈ rest, strip l ≠ o.word) :
    convertLines .outside (o.line :: rest) = .error ⟨o.word⟩ := by
  have hinside := convertLines_inside o.start h [] []
  rw [List.append_nil] at hinside
  rw [convertLines, o.opening?_line]
  simp only [hinside, convertLines]

/-! ### Texts -/

/-- A text whose lines are those of `Segment`s is converted to the text with one line for each of
them. -/
theorem convert_of_segments {t : Text} {segments : List Segment}
    (h : lines t = segments.flatMap Segment.lines) :
    convert t = .ok (unlines (segments.map Segment.converted)) := by
  have hall := Segment.converts_flatMap segments []
  rw [List.append_nil] at hall
  rw [convert, h, hall, convertLines]
  simp [Except.map]

/-- The lines of the converted text are the converted lines again, because each of them stands on
one line (`Segment.oneLine_converted`). -/
theorem lines_of_segments {t : Text} {segments : List Segment}
    (h : lines t = segments.flatMap Segment.lines) :
    lines (unlines (segments.map Segment.converted)) = segments.map Segment.converted := by
  refine lines_unlines ?_ ?_
  · intro hnone
    rw [List.map_eq_nil_iff.mp hnone] at h
    exact splitOn_ne_nil '\n' t h
  · intro l hl
    obtain ⟨s, hs, rfl⟩ := List.mem_map.mp hl
    refine s.oneLine_converted fun l' hl' => oneLine_of_mem_lines (t := t) ?_
    rw [h]
    exact List.mem_flatMap.mpr ⟨s, hs, hl'⟩

/-- A text that leaves the block of an `Opening` open is refused by `convert`, also if segments
stand in front of it. -/
theorem convert_of_open {t : Text} {segments : List Segment} {o : Opening} {rest : List Text}
    (h : lines t = segments.flatMap Segment.lines ++ o.line :: rest)
    (hrest : ∀ l ∈ rest, strip l ≠ o.word) : convert t = .error ⟨o.word⟩ := by
  rw [convert, h, Segment.converts_flatMap segments, convertLines_open o hrest]
  rfl

/-- The function `convert` reads the blocks of a text from the left. An opening line begins one that
goes to the first line behind it that holds only the word, whatever stands in between. It fails just
where a block is left open, with the word of that block. Elsewhere the lines outside blocks stay in
their order, and each block is replaced by one line. No line of the result opens a block, so
converting it again gives it back. -/
theorem convert_blocks (t : Text) :
    (∀ fault, convert t = .error fault ↔
      ∃ (segments : List Segment) (o : Opening) (rest : List Text),
        lines t = segments.flatMap Segment.lines ++ o.line :: rest ∧
          (∀ l ∈ rest, strip l ≠ o.word) ∧ fault = ⟨o.word⟩) ∧
    (∀ plain, convert t = .ok plain ↔
      ∃ segments : List Segment, lines t = segments.flatMap Segment.lines ∧
        lines plain = segments.map Segment.converted) ∧
    ∀ plain, convert t = .ok plain →
      (∀ line ∈ lines plain, ∀ o : Opening, o.line ≠ line) ∧ convert plain = .ok plain := by
  -- Segments that close make the result, and those that leave a block open make the fault. The two
  -- cases exclude each other, so either direction follows from the one way to take a text apart.
  have hok : ∀ plain, convert t = .ok plain ↔ ∃ segments : List Segment,
      lines t = segments.flatMap Segment.lines ∧ lines plain = segments.map Segment.converted := by
    intro plain
    constructor
    · intro hplain
      obtain ⟨segments, hclosed | ⟨o, rest, hopen, hrest⟩⟩ := segmented (lines t)
      · rw [convert_of_segments hclosed] at hplain
        cases hplain
        exact ⟨segments, hclosed, lines_of_segments hclosed⟩
      · rw [convert_of_open hopen hrest] at hplain
        cases hplain
    · rintro ⟨segments, hsegments, hplain⟩
      rw [convert_of_segments hsegments, ← hplain, unlines_lines]
  refine ⟨?_, hok, ?_⟩
  · intro fault
    constructor
    · intro hfault
      obtain ⟨segments, hclosed | ⟨o, rest, hopen, hrest⟩⟩ := segmented (lines t)
      · rw [convert_of_segments hclosed] at hfault
        cases hfault
      · rw [convert_of_open hopen hrest] at hfault
        cases hfault
        exact ⟨segments, o, rest, hopen, hrest, rfl⟩
    · rintro ⟨segments, o, rest, hopen, hrest, rfl⟩
      exact convert_of_open hopen hrest
  -- A result has no blocks left, so it is made of settled lines only and is converted to itself.
  · intro plain hplain
    obtain ⟨segments, -, hlines⟩ := (hok plain).mp hplain
    have hsettled : lines plain = (segments.map Segment.settled).flatMap Segment.lines := by
      rw [hlines, List.flatMap_map]
      exact List.map_eq_flatMap
    have hsame : lines plain = (segments.map Segment.settled).map Segment.converted := by
      rw [hlines, List.map_map]
      rfl
    refine ⟨?_, ?_⟩
    · intro line hline o
      rw [hlines] at hline
      obtain ⟨s, -, rfl⟩ := List.mem_map.mp hline
      exact s.line_ne_converted o
    · rw [convert_of_segments hsettled, ← hsame, unlines_lines]

/-- Two blocks for `convert` with nothing in between. The first holds an opening line and the word
of the second, the second is empty and ends the text. -/
def adjacentBlocks : Text :=
  unlines ["op \x7b", "summary: <<END", "x: <<EOS", " EOS", "END", "\tdescription : <<EOS ",
    "EOS\t"]

/-- The text that `adjacentBlocks` is converted to, with one line for each of its two blocks. -/
def adjacentLines : Text :=
  unlines ["op \x7b", "summary: \"x: <<EOS\\n EOS\"", "\tdescription : \"\""]

/-- The blocks of `adjacentBlocks` become the lines of `adjacentLines`, and those are converted to
themselves. -/
theorem convert_blocks_adjacent :
    convert adjacentBlocks = .ok adjacentLines ∧ convert adjacentLines = .ok adjacentLines := by
  have hplain : convert adjacentBlocks = .ok adjacentLines := by decide +kernel
  exact ⟨hplain, ((convert_blocks adjacentBlocks).2.2 _ hplain).2⟩

end TypedOps.Api.Heredoc
