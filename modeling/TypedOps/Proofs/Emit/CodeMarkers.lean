import TypedOps.Proofs.Emit.DocLines

/-!
# `TypedOps.Proofs.Emit.CodeMarkers`: markers of code are unambiguous

Rendered documentation marks blocks of code by lines and spans of code by markers in a line.
`Unambiguous` says what a reader needs to find them again: every angle bracket belongs to a marker,
markers of blocks are whole lines and take turns, and so do the markers of spans in every other
line.

The documentation may hold anything, the markers among it. Escaping takes every angle bracket out,
so those that are left are of the markers that rendering puts in. In a line these follow a grammar,
`Spans`, of which the markers can be read off. From line to line rendering carries along whether a
block is open, and `alternates_renderLine` is the step that keeps the lines of markers in turn.
-/

set_option autoImplicit false

namespace TypedOps.Comment

open Text

/-! ### Markers that a reader can find -/

/-- The markers of blocks that `render` writes, the opening one first. -/
def blockMarkers : List Text := [codeOpen, codeClose]

/-- The markers of spans that `markSpans` writes, the opening one first. -/
def spanMarkers : List Text := [inlineOpen, inlineClose]

/-- Texts that are one of two in turn, beginning with `first`. -/
def Alternates (first second : Text) : List Text → Prop
  | [] => True
  | t :: ts => t = first ∧ Alternates second first ts

/-- Those of the given texts that begin at a place of a text, from left to right over all places. -/
def occurrences (wanted : List Text) : Text → List Text
  | [] => []
  | c :: t => wanted.filter (startsWith (c :: t) ·) ++ occurrences wanted t

/-- Lines in which markers stand for code and for nothing else: every angle bracket belongs to a
marker, and the markers of each kind have `Alternates`. -/
structure Unambiguous (ls : List Text) : Prop where
  /-- An angle bracket to the left begins a marker. -/
  opens : ∀ line ∈ ls, ∀ rest, '<' :: rest <:+ line →
    ∃ m ∈ blockMarkers ++ spanMarkers, m <+: '<' :: rest
  /-- An angle bracket to the right ends a marker. -/
  closes : ∀ line ∈ ls, ∀ front, front ++ ['>'] <+: line →
    ∃ m ∈ blockMarkers ++ spanMarkers, m <:+ front ++ ['>']
  /-- A line that holds the marker of a block is that marker. -/
  whole : ∀ line ∈ ls, ∀ m ∈ blockMarkers, m <:+: line → line = m
  /-- Blocks are opened and closed in turn. -/
  blocks : Alternates codeOpen codeClose (ls.filter (· ∈ blockMarkers))
  /-- Spans are opened and closed in turn on any other line. -/
  spans : ∀ line ∈ ls, line ∉ blockMarkers →
    Alternates inlineOpen inlineClose (occurrences spanMarkers line)

/-! ### Angle brackets of markers -/

/-- Each of the `blockMarkers` and `spanMarkers` has a bracket at either end and none in between,
which is all that the lemmas below use of them. -/
theorem exists_marker_eq {m : Text} (h : m ∈ blockMarkers ++ spanMarkers) :
    ∃ name, m = '<' :: (name ++ ['>']) ∧ '<' ∉ name ∧ '>' ∉ name := by
  have hall : ∀ m ∈ blockMarkers ++ spanMarkers,
      m = '<' :: (m.tail.dropLast ++ ['>']) ∧ '<' ∉ m.tail.dropLast ∧ '>' ∉ m.tail.dropLast := by
    decide
  exact ⟨m.tail.dropLast, hall m h⟩

/-- What begins with a code point that `s` lacks, and ends `s ++ t`, lies in `t` as a whole. -/
theorem suffix_of_not_mem {c : Char} {s t rest : Text} (hfree : c ∉ s)
    (h : c :: rest <:+ s ++ t) : c :: rest <:+ t := by
  induction s with
  | nil => exact h
  | cons d s ih =>
    rw [List.mem_cons, not_or] at hfree
    rcases List.suffix_cons_iff.mp h with hhere | hlater
    · exact absurd (List.cons.inj hhere).1 hfree.1
    · exact ih hfree.2 hlater

/-- What ends with a code point that `s` lacks, and begins `s ++ t`, reaches beyond `s`. -/
theorem prefix_of_not_mem {c : Char} {s t front : Text} (hfree : c ∉ s)
    (h : front ++ [c] <+: s ++ t) : ∃ part, front = s ++ part ∧ part ++ [c] <+: t := by
  induction s generalizing front with
  | nil => exact ⟨front, rfl, h⟩
  | cons d s ih =>
    rw [List.mem_cons, not_or] at hfree
    cases front with
    | nil => exact absurd (List.cons_prefix_cons.mp h).1 hfree.1
    | cons e front =>
      obtain ⟨rfl, hlater⟩ := List.cons_prefix_cons.mp h
      obtain ⟨part, rfl, hpart⟩ := ih hfree.2 hlater
      exact ⟨part, rfl, hpart⟩

/-- A marker of the `blockMarkers` or `spanMarkers` in front of a text adds one bracket to the left,
at which the marker begins. -/
theorem eq_or_suffix_of_marker {m t rest : Text} (hm : m ∈ blockMarkers ++ spanMarkers)
    (h : '<' :: rest <:+ m ++ t) : '<' :: rest = m ++ t ∨ '<' :: rest <:+ t := by
  obtain ⟨name, rfl, hopen, -⟩ := exists_marker_eq hm
  have hbehind : '<' ∉ name ++ ['>'] := by simp [hopen]
  rw [List.cons_append] at h
  rcases List.suffix_cons_iff.mp h with hhere | hlater
  · exact .inl hhere
  · exact .inr (suffix_of_not_mem hbehind hlater)

/-- A marker of the `blockMarkers` or `spanMarkers` in front of a text adds one bracket to the
right, at which the marker ends. -/
theorem eq_or_prefix_of_marker {m t front : Text} (hm : m ∈ blockMarkers ++ spanMarkers)
    (h : front ++ ['>'] <+: m ++ t) :
    front ++ ['>'] = m ∨ ∃ part, front = m ++ part ∧ part ++ ['>'] <+: t := by
  obtain ⟨name, rfl, -, hclose⟩ := exists_marker_eq hm
  have hbefore : '>' ∉ '<' :: name := by simp [hclose]
  rw [show '<' :: (name ++ ['>']) ++ t = '<' :: name ++ '>' :: t by simp] at h
  obtain ⟨part, rfl, hlater⟩ := prefix_of_not_mem hbefore h
  cases part with
  | nil => exact .inl (by simp)
  | cons d part =>
    obtain ⟨rfl, hbehind⟩ := List.cons_prefix_cons.mp hlater
    exact .inr ⟨part, by simp, hbehind⟩

/-- None of the `blockMarkers` and `spanMarkers` stands inside another one except at its beginning.
-/
theorem isPrefix_of_isInfix_marker {m line : Text} (hm : m ∈ blockMarkers ++ spanMarkers)
    (hline : line ∈ blockMarkers ++ spanMarkers) (h : m <:+: line) : m <+: line := by
  obtain ⟨before, behind, hparts⟩ := h
  obtain ⟨name, rfl, -⟩ := exists_marker_eq hm
  have hends : '<' :: (name ++ ['>'] ++ behind) <:+ line ++ [] := by
    rw [List.append_nil, ← hparts]
    exact ⟨before, by simp⟩
  rcases eq_or_suffix_of_marker hline hends with hhere | hlater
  · rw [← List.append_nil line, ← hhere]
    exact ⟨behind, rfl⟩
  · exact absurd (List.suffix_nil.mp hlater) (List.cons_ne_nil _ _)

/-! ### Spans of a line -/

/-- The marker of a span that comes next; `inside` says whether one is open. -/
def spanMarker (inside : Bool) : Text := if inside then inlineClose else inlineOpen

/-- A text whose angle brackets are those of span markers, in turn. It is what `markSpans` makes of
an escaped text. -/
inductive Spans : Bool → Text → Prop where
  | nil {inside : Bool} : Spans inside []
  | plain {inside : Bool} {c : Char} {t : Text} (hopen : c ≠ '<') (hclose : c ≠ '>')
      (ht : Spans inside t) : Spans inside (c :: t)
  | marker {inside : Bool} {t : Text} (ht : Spans (!inside) t) :
      Spans inside (spanMarker inside ++ t)

/-- Marking the spans of a text without angle brackets adds nothing but `Spans` markers, in turn. -/
theorem spans_markSpans {t : Text} (hopen : '<' ∉ t) (hclose : '>' ∉ t) (inside : Bool) :
    Spans inside (markSpans inside t) := by
  induction t generalizing inside with
  | nil => exact .nil
  | cons c t ih =>
    rw [List.mem_cons, not_or] at hopen hclose
    rw [markSpans]
    by_cases hc : c = backtick
    · rw [if_pos hc]
      exact .marker (ih hopen.2 hclose.2 !inside)
    · rw [if_neg hc]
      exact .plain (Ne.symm hopen.1) (Ne.symm hclose.1) (ih hopen.2 hclose.2 inside)

/-- The `spanMarker` that comes next is one of the two. -/
theorem spanMarker_mem (inside : Bool) : spanMarker inside ∈ spanMarkers := by
  cases inside <;> decide

/-- A code point that does not begin a marker adds nothing to the `occurrences`. -/
theorem occurrences_plain {c : Char} (h : c ≠ '<') (t : Text) :
    occurrences spanMarkers (c :: t) = occurrences spanMarkers t := by
  have hnone : ∀ name : Text, startsWith (c :: t) ('<' :: name) = false := by
    intro name
    rw [startsWith, afterStart?, if_neg (Ne.symm h)]
    rfl
  have hhead : spanMarkers.filter (startsWith (c :: t) ·) = [] := by
    show ['<' :: "c>".toList, '<' :: "/c>".toList].filter (startsWith (c :: t) ·) = []
    simp only [List.filter_cons, hnone, List.filter_nil, Bool.false_eq_true, if_false]
  rw [occurrences, hhead, List.nil_append]

namespace Spans

variable {inside : Bool} {t : Text}

/-- The markers in a text of `Spans` are in turn, beginning with the one that its state expects. -/
theorem alternates (h : Spans inside t) :
    Alternates (spanMarker inside) (spanMarker !inside) (occurrences spanMarkers t) := by
  induction h with
  | nil => trivial
  | plain hopen _ _ ih =>
    rw [occurrences_plain hopen]
    exact ih
  -- A marker is the next occurrence, and behind it the other one is expected.
  | @marker inside t _ ih =>
    have hfirst : occurrences spanMarkers (spanMarker inside ++ t) =
        spanMarker inside :: occurrences spanMarkers t := by
      cases inside <;> rfl
    rw [hfirst]
    refine ⟨rfl, ?_⟩
    rw [Bool.not_not] at ih
    exact ih

/-- An angle bracket to the left, in a text of `Spans`, begins a marker of a span. -/
theorem opens (h : Spans inside t) {rest : Text} (hrest : '<' :: rest <:+ t) :
    ∃ m ∈ spanMarkers, m <+: '<' :: rest := by
  induction h with
  | nil => exact absurd (List.suffix_nil.mp hrest) (List.cons_ne_nil _ _)
  | plain hopen _ _ ih =>
    rcases List.suffix_cons_iff.mp hrest with hhere | hlater
    · exact absurd (List.cons.inj hhere).1.symm hopen
    · exact ih hlater
  | @marker inside t _ ih =>
    have hm := List.mem_append_right blockMarkers (spanMarker_mem inside)
    rcases eq_or_suffix_of_marker hm hrest with hhere | hlater
    · rw [hhere]
      exact ⟨spanMarker inside, spanMarker_mem inside, List.prefix_append _ t⟩
    · exact ih hlater

/-- An angle bracket to the right, in a text of `Spans`, ends a marker of a span. -/
theorem closes (h : Spans inside t) {front : Text} (hfront : front ++ ['>'] <+: t) :
    ∃ m ∈ spanMarkers, m <:+ front ++ ['>'] := by
  induction h generalizing front with
  | nil => exact absurd (List.prefix_nil.mp hfront) (by simp)
  | @plain inside c t _ hclose _ ih =>
    have hother : '>' ∉ [c] := by simp [Ne.symm hclose]
    obtain ⟨part, rfl, hlater⟩ := prefix_of_not_mem hother hfront
    obtain ⟨m, hm, hends⟩ := ih hlater
    exact ⟨m, hm, hends.trans (List.suffix_cons _ _)⟩
  | @marker inside t _ ih =>
    have hm := List.mem_append_right blockMarkers (spanMarker_mem inside)
    -- The bracket closes the marker at the front, or it stands behind this one.
    rcases eq_or_prefix_of_marker hm hfront with hhere | ⟨part, rfl, hlater⟩
    · rw [hhere]
      exact ⟨spanMarker inside, spanMarker_mem inside, List.suffix_rfl⟩
    · obtain ⟨m, hm, hends⟩ := ih hlater
      refine ⟨m, hm, hends.trans ?_⟩
      rw [List.append_assoc]
      exact List.suffix_append _ _

/-- No marker of blocks stands in a text of `Spans`: it would have to begin as a marker of spans
does. -/
theorem not_isInfix_marker (h : Spans inside t) {m : Text} (hm : m ∈ blockMarkers) : ¬m <:+: t := by
  intro hinfix
  obtain ⟨before, behind, hline⟩ := hinfix
  have hends : m ++ behind <:+ t := ⟨before, by rw [← List.append_assoc, hline]⟩
  -- Its bracket begins a marker of spans, and the next two code points do not go on like one.
  have hother : ∀ span ∈ spanMarkers, span.isPrefixOf (m ++ behind) = false := by
    rcases List.mem_cons.mp hm with rfl | hm
    · exact List.forall_mem_cons.mpr ⟨rfl, List.forall_mem_singleton.mpr rfl⟩
    · rw [List.mem_singleton.mp hm]
      exact List.forall_mem_cons.mpr ⟨rfl, List.forall_mem_singleton.mpr rfl⟩
  obtain ⟨rest, hrest⟩ : ∃ rest, m ++ behind = '<' :: rest := by
    rcases List.mem_cons.mp hm with rfl | hm
    · exact ⟨_, rfl⟩
    · rw [List.mem_singleton.mp hm]
      exact ⟨_, rfl⟩
  rw [hrest] at hends hother
  obtain ⟨span, hspan, hbegins⟩ := h.opens hends
  have hnot := hother span hspan
  rw [List.isPrefixOf_iff_prefix.mpr hbegins] at hnot
  exact absurd hnot (by decide)

end Spans

/-! ### Lines of a text -/

/-- The text that `escaped` gives holds no angle bracket, so all brackets in a rendered line are
those of markers. -/
theorem bracket_not_mem_escaped (t : Text) : '<' ∉ escaped t ∧ '>' ∉ escaped t := by
  -- Each of the three code points with an entity is looked at in turn, and any other one stays as
  -- it is.
  have hchar : ∀ c, '<' ∉ escapedChar c ∧ '>' ∉ escapedChar c := by
    intro c
    rw [escapedChar]
    by_cases hand : c = '&'
    · rw [if_pos hand]
      decide
    · rw [if_neg hand]
      by_cases hopen : c = '<'
      · rw [if_pos hopen]
        decide
      · rw [if_neg hopen]
        by_cases hclose : c = '>'
        · rw [if_pos hclose]
          decide
        · rw [if_neg hclose]
          simp [Ne.symm hopen, Ne.symm hclose]
  constructor <;> intro hmem <;> obtain ⟨c, -, hc⟩ := List.mem_flatMap.mp hmem
  · exact (hchar c).1 hc
  · exact (hchar c).2 hc

/-- Any part of an escaped line, with its spans marked, has no brackets but those of `Spans`. -/
theorem spans_of_isInfix_escaped {part t : Text} (h : part <:+: escaped t) :
    Spans false (markSpans false part) := by
  obtain ⟨hopen, hclose⟩ := bracket_not_mem_escaped t
  exact spans_markSpans (fun hmem => hopen (h.subset hmem)) (fun hmem => hclose (h.subset hmem))
    false

/-- The marker that a fence becomes is one of the `blockMarkers`. -/
theorem fenceMarker_mem (inside : Bool) : fenceMarker inside ∈ blockMarkers := by
  cases inside <;> decide

/-- A line of `render` is the marker of a block, or its angle brackets are those of spans. -/
theorem mem_blockMarkers_or_spans {t line : Text} (h : line ∈ render t) :
    line ∈ blockMarkers ∨ Spans false line := by
  obtain ⟨raw, -, inside, hline⟩ := exists_of_mem_render h
  rcases mem_renderLine hline with ⟨open?, rfl⟩ | ⟨part, hpart, rfl⟩
  · exact .inl (fenceMarker_mem open?)
  · exact .inr (spans_of_isInfix_escaped hpart)

/-- The lines of `renderLine` put their markers of blocks in turn behind those in front of them, and
the state that is left says which one comes next. -/
theorem alternates_renderLine (inside : Bool) (raw : Text) {later : List Text}
    (h : Alternates (fenceMarker (renderLine inside raw).2) (fenceMarker !(renderLine inside raw).2)
      later) :
    Alternates (fenceMarker inside) (fenceMarker !inside)
      ((renderLine inside raw).1.filter (· ∈ blockMarkers) ++ later) := by
  obtain ⟨part, hpart, hcase⟩ := renderLine_cases inside raw
  have hspan : markSpans false part ∉ blockMarkers := fun hmem =>
    (spans_of_isInfix_escaped hpart).not_isInfix_marker hmem List.infix_rfl
  rcases hcase with hcase | hcase | hcase | hcase <;> rw [hcase] at h ⊢ <;>
    simpa [hspan, fenceMarker_mem, Alternates] using h

/-- The markers of blocks in rendered lines are in turn, beginning with the one that the state
`inside` expects. -/
theorem alternates_renderLines (inside : Bool) (raws : List Text) :
    Alternates (fenceMarker inside) (fenceMarker !inside)
      ((renderLines inside raws).filter (· ∈ blockMarkers)) := by
  induction raws generalizing inside with
  | nil => trivial
  | cons raw raws ih =>
    rw [renderLines, List.filter_append]
    exact alternates_renderLine inside raw (ih (renderLine inside raw).2)

/-- Whatever the documentation is, the lines of `render` are `Unambiguous`: a reader finds the
markers of code in them. -/
theorem unambiguous_render (t : Text) : Unambiguous (render t) where
  opens := by
    intro line hline rest hrest
    -- A rendered line is the marker of a block, or made of spans. Every clause is shown for these
    -- two kinds.
    rcases mem_blockMarkers_or_spans hline with hblock | hspans
    · have hmarker := List.mem_append_left spanMarkers hblock
      rw [← List.append_nil line] at hrest
      rcases eq_or_suffix_of_marker hmarker hrest with hhere | hlater
      · rw [hhere]
        exact ⟨line, hmarker, List.prefix_append _ _⟩
      · exact absurd (List.suffix_nil.mp hlater) (List.cons_ne_nil _ _)
    · obtain ⟨m, hm, hbegins⟩ := hspans.opens hrest
      exact ⟨m, List.mem_append_right _ hm, hbegins⟩
  closes := by
    intro line hline front hfront
    rcases mem_blockMarkers_or_spans hline with hblock | hspans
    · have hmarker := List.mem_append_left spanMarkers hblock
      rw [← List.append_nil line] at hfront
      rcases eq_or_prefix_of_marker hmarker hfront with hhere | ⟨part, -, hlater⟩
      · rw [hhere]
        exact ⟨line, hmarker, List.suffix_rfl⟩
      · exact absurd (List.prefix_nil.mp hlater) (by simp)
    · obtain ⟨m, hm, hends⟩ := hspans.closes hfront
      exact ⟨m, List.mem_append_right _ hm, hends⟩
  whole := by
    intro line hline m hm hinfix
    rcases mem_blockMarkers_or_spans hline with hblock | hspans
    · have hbegins := isPrefix_of_isInfix_marker (List.mem_append_left _ hm)
        -- A marker of a block that stands in another line of the kind begins it, and no such marker
        -- begins another.
        (List.mem_append_left _ hblock) hinfix
      have hapart : ∀ line ∈ blockMarkers, ∀ m ∈ blockMarkers, m.isPrefixOf line → line = m := by
        decide
      exact hapart line hblock m hm (List.isPrefixOf_iff_prefix.mpr hbegins)
    · exact absurd hinfix (hspans.not_isInfix_marker hm)
  blocks := by
    rw [render]
    by_cases hempty : t.isEmpty
    · rw [if_pos hempty]
      trivial
    · rw [if_neg hempty]
      exact alternates_renderLines false (lines t)
  spans := by
    intro line hline hother
    rcases mem_blockMarkers_or_spans hline with hblock | hspans
    · exact absurd hblock hother
    · exact hspans.alternates

end TypedOps.Comment
