import Mathlib.Algebra.Group.Nat.Even
import TypedOps.Proofs.Emit.Unrender

/-!
# `TypedOps.Proofs.Emit.FenceState`: what crosses a line break

Rendering goes through a text line by line, and all that it carries along is whether a block is
open. `LineForm` lists what may become of a line, in a block and out of it alike: a line toggles
the state not at all, once, or twice.

* `renderLine_not`: with the other state in front a line becomes the same lines, its markers of
  blocks exchanged, and leaves the other state behind.
* `count_renderLines`: the markers of a text say which state it leaves.
* `render_append_linefeed`: so a text behind another is rendered as it is alone if the markers of
  the first are even in number, and with its own exchanged if they are odd. No other line of it
  changes.
-/

set_option autoImplicit false

namespace TypedOps.Comment

open Text

/-! ### What may become of a line -/

/-- The four ways in which a line is rendered, as `renderLine` tells them by the fences at its ends.
-/
inductive LineForm (raw : Text) : Prop where
  /-- Nothing begins or ends a block. -/
  | bare (hstart : ¬fence <+: strip raw)
      (hrender : ∀ inside, renderLine inside raw =
        ([markSpans false (escaped (strip raw))], inside))
  /-- The line is a fence, and a language at most. -/
  | marker {hint : Text} (hline : strip raw = fence ++ hint) (hhint : hint = [] ∨ hint ∈ languages)
      (hrender : ∀ inside, renderLine inside raw = ([fenceMarker inside], !inside))
  /-- The line begins and ends with a fence. -/
  | enclosed {inner : Text} (hline : strip raw = fence ++ (inner ++ fence))
      (hrender : ∀ inside, renderLine inside raw =
        ([fenceMarker inside, markSpans false (escaped inner), fenceMarker !inside], inside))
  /-- The line begins with a fence and goes on with something else. -/
  | headed {rest : Text} (hline : strip raw = fence ++ rest) (hne : rest ≠ [])
      (hend : ¬fence <:+ rest)
      (hrender : ∀ inside, renderLine inside raw =
        ([fenceMarker inside, markSpans false (escaped rest)], !inside))

/-- An `escaped` text that ends in a code point of no entity comes from a text that ends in it. -/
theorem exists_of_escaped_eq_concat {s w : Text} {c : Char} (hc : c ∉ entityMarks)
    (h : escaped s = w ++ [c]) : ∃ s', s = s' ++ [c] ∧ escaped s' = w := by
  have hentity : ∀ e ∈ (["&amp;".toList, "&lt;".toList, "&gt;".toList] : List Text),
      e ≠ [] ∧ ∀ d ∈ e.getLast?, d ∈ entityMarks := by decide
  -- Only the last code point of the text matters, as it alone is the end of what it becomes.
  rcases List.eq_nil_or_concat s with rfl | ⟨s', d, rfl⟩
  · cases w <;> cases h
  · rw [List.concat_eq_append, escaped, List.flatMap_append, List.flatMap_singleton] at h
    rcases escapedChar_cases d with hstays | hmem
    · rw [hstays] at h
      obtain ⟨hfront, hlast⟩ := List.append_inj' h rfl
      cases hlast
      exact ⟨s', List.concat_eq_append, hfront⟩
    · -- An entity ends in one of its own code points.
      have hlast : (escapedChar d).getLast? = some c := by
        rw [← List.getLast?_append_of_ne_nil _ (hentity _ hmem).1, h, List.getLast?_concat]
      exact absurd ((hentity _ hmem).2 c hlast) hc

/-- A `fence` at the end of an escaped text stands at the end of the text itself. -/
theorem exists_of_escaped_eq_fence {s w : Text} (h : escaped s = w ++ fence) :
    ∃ s', s = s' ++ fence ∧ escaped s' = w := by
  have hfree : backtick ∉ entityMarks := by decide
  have hfence : fence = [backtick] ++ [backtick] ++ [backtick] := rfl
  rw [hfence, ← List.append_assoc, ← List.append_assoc] at h
  obtain ⟨s₁, rfl, h₁⟩ := exists_of_escaped_eq_concat hfree h
  obtain ⟨s₂, rfl, h₂⟩ := exists_of_escaped_eq_concat hfree h₁
  obtain ⟨s₃, rfl, h₃⟩ := exists_of_escaped_eq_concat hfree h₂
  exact ⟨s₃, by simp [hfence], h₃⟩

/-- Every line is rendered in one of the four ways. The cases follow those of `renderLine`. -/
theorem lineForm (raw : Text) : LineForm raw := by
  -- The first test of `renderLine` is made on the escaped line, but a fence is escaped to itself,
  -- so it can be made on the line.
  by_cases hstart : fence <+: strip raw
  · obtain ⟨rest, hrest⟩ := hstart
    have hline : afterStart? fence (escaped (strip raw)) = some (escaped rest) := by
      rw [← hrest, escaped, List.flatMap_append]
      exact afterStart?_append fence _
    by_cases hhint : rest = [] ∨ rest ∈ languages
    · have hconsumed : ((escaped rest).isEmpty || languages.contains (escaped rest)) = true := by
        have hlanguage : ∀ l ∈ languages, escaped l = l := by decide
        rcases hhint with rfl | hmem
        · rfl
        · rw [hlanguage rest hmem, List.contains_iff_mem.mpr hmem, Bool.or_true]
      refine .marker hrest.symm hhint fun inside => ?_
      simp only [renderLine, hline, hconsumed, if_true]
    · -- What is left of an escaped hint is read back, so no other text becomes one.
      have hkept : ((escaped rest).isEmpty || languages.contains (escaped rest)) = false := by
        have hread := unescaped_escaped rest
        have hlanguage : ∀ l ∈ languages, unescaped l = l := by decide
        rw [Bool.or_eq_false_iff, ← Bool.not_eq_true, ← Bool.not_eq_true, List.isEmpty_iff,
          List.contains_iff_mem]
        refine ⟨fun hempty => hhint (.inl ?_), fun hmem => hhint (.inr ?_)⟩
        · rw [← hread, hempty]
          rfl
        · rw [← hread, hlanguage _ hmem]
          exact hmem
      by_cases hend : fence <:+ escaped rest
      · obtain ⟨w, hw⟩ := hend
        obtain ⟨inner, rfl, rfl⟩ := exists_of_escaped_eq_fence hw.symm
        have hends : endsWith (escaped (inner ++ fence)) fence = true :=
          (endsWith_iff_isSuffix _ _).mpr ⟨escaped inner, hw⟩
        have hinner : dropEnd (escaped (inner ++ fence)) fence.length = escaped inner := by
          rw [← hw, dropEnd_append]
        refine .enclosed hrest.symm fun inside => ?_
        simp only [renderLine, hline, hkept, hends, hinner, if_true, Bool.false_eq_true, if_false]
      · have hends : endsWith (escaped rest) fence = false := by
          rwa [← Bool.not_eq_true, endsWith_iff_isSuffix]
        have hopen : ¬fence <:+ rest := by
          rintro ⟨w, rfl⟩
          exact hend ⟨escaped w, by rw [escaped, escaped, List.flatMap_append]; rfl⟩
        refine .headed hrest.symm (fun hempty => hhint (.inl hempty)) hopen fun inside => ?_
        simp only [renderLine, hline, hkept, hends, Bool.false_eq_true, if_false]
  · exact .bare hstart (renderLine_of_not_fenced hstart)

/-! ### The two states -/

/-- A line with the `blockMarkers` exchanged for each other, and any other line as it is. -/
def exchanged (line : Text) : Text :=
  if line = codeOpen then codeClose else if line = codeClose then codeOpen else line

/-- A line that is no marker of a block is not changed by `exchanged`. -/
theorem exchanged_of_not_mem {line : Text} (h : line ∉ blockMarkers) : exchanged line = line := by
  simp only [blockMarkers, List.mem_cons, List.not_mem_nil, or_false, not_or] at h
  rw [exchanged, if_neg h.1, if_neg h.2]

/-- The markers that a fence becomes in the two states are each other's `exchanged`. -/
theorem exchanged_fenceMarker (inside : Bool) :
    exchanged (fenceMarker inside) = fenceMarker !inside := by
  cases inside <;> rfl

/-- For an `escaped` text, marking its spans gives no marker of a block, because its brackets are
those of spans. -/
theorem markSpans_escaped_not_mem (t : Text) : markSpans false (escaped t) ∉ blockMarkers :=
  fun hmem => (spans_of_isInfix_escaped List.infix_rfl).not_isInfix_marker hmem List.infix_rfl

/-- In the other state `renderLine` makes the same lines with the markers `exchanged`, and leaves
the other state behind. -/
theorem renderLine_not (inside : Bool) (raw : Text) :
    renderLine (!inside) raw =
      ((renderLine inside raw).1.map exchanged, !(renderLine inside raw).2) := by
  have hkept : ∀ t, exchanged (markSpans false (escaped t)) = markSpans false (escaped t) :=
    fun t => exchanged_of_not_mem (markSpans_escaped_not_mem t)
  cases lineForm raw with
  | bare _ hrender | marker _ _ hrender | enclosed _ hrender | headed _ _ _ hrender =>
    simp [hrender, hkept, exchanged_fenceMarker]

/-- Whether a block is open behind lines that are rendered in the state `inside`. -/
def openBehind (inside : Bool) : List Text → Bool
  | [] => inside
  | raw :: raws => openBehind (renderLine inside raw).2 raws

/-- The state that `openBehind` gives behind more lines goes on from the one that the first lines
leave. -/
theorem openBehind_append (inside : Bool) (xs ys : List Text) :
    openBehind inside (xs ++ ys) = openBehind (openBehind inside xs) ys := by
  induction xs generalizing inside with
  | nil => rfl
  | cons x xs ih => exact ih (renderLine inside x).2

/-- Lines behind others are rendered in the state that these leave, `openBehind` them. -/
theorem renderLines_append (inside : Bool) (xs ys : List Text) :
    renderLines inside (xs ++ ys) =
      renderLines inside xs ++ renderLines (openBehind inside xs) ys := by
  induction xs generalizing inside with
  | nil => rfl
  | cons x xs ih =>
    rw [List.cons_append, renderLines, ih, renderLines, List.append_assoc]
    rfl

/-- The other state in front of lines makes `openBehind` give the other state behind them. -/
theorem openBehind_not (inside : Bool) (raws : List Text) :
    openBehind (!inside) raws = !openBehind inside raws := by
  induction raws generalizing inside with
  | nil => rfl
  | cons raw raws ih =>
    rw [openBehind, renderLine_not, ih]
    rfl

/-- The lines of `renderLines` in the other state are the same with the markers of blocks
`exchanged`, and nothing else. -/
theorem renderLines_not (inside : Bool) (raws : List Text) :
    renderLines (!inside) raws = (renderLines inside raws).map exchanged := by
  induction raws generalizing inside with
  | nil => rfl
  | cons raw raws ih => rw [renderLines, renderLine_not, ih, renderLines, List.map_append]

/-! ### Markers and states -/

/-- In `renderLine` a line opens as many blocks as it closes, up to the state in front of it and
behind it. -/
theorem count_renderLine (inside : Bool) (raw : Text) :
    (renderLine inside raw).1.count codeOpen + inside.toNat =
      (renderLine inside raw).1.count codeClose + (renderLine inside raw).2.toNat := by
  have hnone : ∀ t, ∀ m ∈ blockMarkers, (markSpans false (escaped t) == m) = false := by
    intro t m hm
    refine beq_eq_false_iff_ne.mpr ?_
    rintro rfl
    exact markSpans_escaped_not_mem t hm
  have hopen := fun t => hnone t codeOpen (List.mem_cons_self ..)
  have hclose := fun t => hnone t codeClose (List.mem_cons_of_mem _ (List.mem_cons_self ..))
  have hother : (codeClose == codeOpen) = false ∧ (codeOpen == codeClose) = false := by decide
  cases lineForm raw with
  | bare _ hrender | marker _ _ hrender | enclosed _ hrender | headed _ _ _ hrender =>
    cases inside <;> simp [hrender, hopen, hclose, List.count_cons, fenceMarker, hother]

/-- In `renderLines` several lines open as many blocks as they close, up to the state in front of
them and behind them. -/
theorem count_renderLines (inside : Bool) (raws : List Text) :
    (renderLines inside raws).count codeOpen + inside.toNat =
      (renderLines inside raws).count codeClose + (openBehind inside raws).toNat := by
  induction raws generalizing inside with
  | nil => simp [renderLines, openBehind]
  | cons raw raws ih =>
    have hline := count_renderLine inside raw
    have hlater := ih (renderLine inside raw).2
    rw [renderLines, openBehind, List.count_append, List.count_append]
    omega

/-- The `blockMarkers` among lines are those that open a block and those that close one. -/
theorem countP_blockMarkers (ls : List Text) :
    ls.countP (· ∈ blockMarkers) = ls.count codeOpen + ls.count codeClose := by
  have hother : codeOpen ≠ codeClose := by decide
  induction ls with
  | nil => rfl
  | cons l ls ih =>
    rw [List.countP_cons, List.count_cons, List.count_cons, ih]
    by_cases hopen : l = codeOpen
    · simp [hopen, blockMarkers, hother]
      omega
    · by_cases hclose : l = codeClose
      · simp [hclose, blockMarkers, Ne.symm hother]
        omega
      · simp [hopen, hclose, blockMarkers]

/-- Whether a text put through `render` alone leaves a block open. -/
def leavesOpen (t : Text) : Bool := openBehind false (lines t)

/-- A text `leavesOpen` no block exactly when its markers are even in number, which can be seen in
its rendered lines. -/
theorem leavesOpen_eq_false_iff {t : Text} (hne : t ≠ []) :
    leavesOpen t = false ↔ Even ((render t).countP (· ∈ blockMarkers)) := by
  have hcount := count_renderLines false (lines t)
  rw [render, if_neg (by simpa using hne), countP_blockMarkers, leavesOpen, Nat.even_iff]
  cases hopen : openBehind false (lines t) <;>
    simp only [hopen, Bool.toNat_false, Bool.toNat_true, true_iff, Bool.true_eq_false,
      false_iff] at hcount ⊢ <;> omega

/-! ### Texts one behind the other -/

/-- The function `render` is a homomorphism up to the state: behind a text whose markers of blocks
are even in number another one is rendered as it is alone, and behind one whose markers are odd in
number with its own `exchanged`. A line of it that is no such marker stays the same behind any text.
-/
theorem render_append_linefeed {a b : Text} (ha : a ≠ []) (hb : b ≠ []) :
    render (a ++ '\n' :: b) =
        render a ++ (if Even ((render a).countP (· ∈ blockMarkers)) then render b
          else (render b).map exchanged) ∧
      ∀ k line, (render b)[k]? = some line → line ∉ blockMarkers →
        (render (a ++ '\n' :: b))[(render a).length + k]? = some line := by
  have hrender : ∀ t : Text, t ≠ [] → render t = renderLines false (lines t) := by
    intro t ht
    rw [render, if_neg (by simpa using ht)]
  -- The state behind the first text is what the parity of its markers tells. From the other state,
  -- every marker is exchanged.
  have hwhole : render (a ++ '\n' :: b) = render a ++
      (if Even ((render a).countP (· ∈ blockMarkers)) then render b
        else (render b).map exchanged) := by
    rw [hrender _ (by simp), lines_append_linefeed, renderLines_append, ← hrender a ha]
    congr 1
    split
    · next heven =>
      rw [← leavesOpen_eq_false_iff ha, leavesOpen] at heven
      rw [heven, hrender b hb]
    · next hodd =>
      rw [← leavesOpen_eq_false_iff ha, leavesOpen, Bool.not_eq_false] at hodd
      rw [hodd, hrender b hb]
      exact renderLines_not false (lines b)
  refine ⟨hwhole, fun k line hline hother => ?_⟩
  rw [hwhole, List.getElem?_append_right (Nat.le_add_right _ _), Nat.add_sub_cancel_left]
  split
  · exact hline
  · rw [List.getElem?_map, hline, Option.map_some, exchanged_of_not_mem hother]

/-- Behind a block that is left open, `render` has a fence close it, and a span stays a span. -/
theorem render_append_linefeed_block :
    let a : Text := "Use:\n\x60\x60\x60python\nx = 1"
    let b : Text := "\x60\x60\x60\nThen \x60y\x60."
    a ≠ [] ∧ b ≠ [] ∧ ¬Even ((render a).countP (· ∈ blockMarkers)) ∧
      render b = [codeOpen, "Then <c>y</c>.".toList] ∧
      render (a ++ '\n' :: b) = render a ++ [codeClose, "Then <c>y</c>.".toList] := by
  intro a b
  have ha : a ≠ [] := by decide
  have hb : b ≠ [] := by decide
  have hodd : ¬Even ((render a).countP (· ∈ blockMarkers)) := by decide
  have hb' : render b = [codeOpen, "Then <c>y</c>.".toList] := by decide
  have hwhole := (render_append_linefeed ha hb).1
  rw [if_neg hodd, hb'] at hwhole
  exact ⟨ha, hb, hodd, hb', hwhole⟩

end TypedOps.Comment
