import TypedOps.Proofs.Emit.CodeMarkers
import TypedOps.Proofs.Emit.Fields

/-!
# `TypedOps.Proofs.Emit.Unrender`: rendered lines are read back

Outside fences rendering only rewrites single code points: angle brackets and ampersands become
entities and backticks become markers of spans. `readBack` undoes the two in the opposite order,
markers first. The order matters for what is read, since the text may hold entities and markers
of its own: escaping has taken their ampersands and brackets out, so the markers that are left
are those of backticks (`unmarked_markSpans`), and once they are gone every ampersand begins an
entity (`unescaped_escaped`).

`render_reads_back` says so of whole texts: without fences each line is rendered as one line, which
reads back as the line without white space around it. Two such texts are rendered alike exactly
when they agree on these.
-/

set_option autoImplicit false

namespace TypedOps.Comment

open Text

/-! ### Reading a line -/

/-- The text with a backtick for each of the `spanMarkers`. -/
def unmarked (t : Text) : Text := replace inlineClose [backtick] (replace inlineOpen [backtick] t)

/-- The text with each entity read as the mark that `escapedChar` makes it from. What an entity
gives is not read again. -/
def unescaped : Text → Text
  | '&' :: 'a' :: 'm' :: 'p' :: ';' :: t => '&' :: unescaped t
  | '&' :: 'l' :: 't' :: ';' :: t => '<' :: unescaped t
  | '&' :: 'g' :: 't' :: ';' :: t => '>' :: unescaped t
  | c :: t => c :: unescaped t
  | [] => []

/-- The line that a rendered line stands for: markers are read first (`unmarked`), then entities
(`unescaped`). -/
def readBack (line : Text) : Text := unescaped (unmarked line)

/-- A code point that begins no marker stays as it is under `unmarked`. -/
theorem unmarked_cons {c : Char} (h : c ≠ '<') (t : Text) :
    unmarked (c :: t) = c :: unmarked t := by
  have hskip : ∀ name s, replace ('<' :: name) [backtick] (c :: s) =
      c :: replace ('<' :: name) [backtick] s := by
    intro name s
    rw [replace, replaceFrom, startsWith, afterStart?, if_neg (Ne.symm h)]
    rfl
  rw [unmarked, show inlineOpen = '<' :: "c>".toList from rfl, hskip,
    show inlineClose = '<' :: "/c>".toList from rfl, hskip]
  rfl

/-- A marker is read as a backtick by `unmarked`, whichever of the two it is. -/
theorem unmarked_marker (inside : Bool) (t : Text) :
    unmarked ((if inside then inlineClose else inlineOpen) ++ t) = backtick :: unmarked t := by
  cases inside <;> rfl

/-- The markers that `markSpans` puts into a text are read as the backticks that they were put in
for. -/
theorem unmarked_markSpans {t : Text} (h : '<' ∉ t) (inside : Bool) :
    unmarked (markSpans inside t) = t := by
  induction t generalizing inside with
  | nil => rfl
  | cons c t ih =>
    rw [List.mem_cons, not_or] at h
    rw [markSpans]
    split
    · next hc => rw [unmarked_marker, ih h.2, hc]
    · rw [unmarked_cons (Ne.symm h.1), ih h.2]

/-- Anything but an ampersand is read as it is by `unescaped`. -/
theorem unescaped_cons {c : Char} (h : c ≠ '&') (t : Text) :
    unescaped (c :: t) = c :: unescaped t := by
  rw [unescaped] <;> rintro rest ⟨rfl⟩ <;> exact absurd rfl h

/-- What was `escaped` is read back by undoing it, whatever the text holds, entities included. -/
theorem unescaped_escaped (t : Text) : unescaped (escaped t) = t := by
  induction t with
  | nil => rfl
  | cons c t ih =>
    rw [escaped] at ih ⊢
    rw [List.flatMap_cons, escapedChar]
    -- One case for each code point that has an entity.
    split
    · next hand => exact hand ▸ congrArg ('&' :: ·) ih
    · next hand =>
      split
      · next hopen => exact hopen ▸ congrArg ('<' :: ·) ih
      · split
        · next hclose => exact hclose ▸ congrArg ('>' :: ·) ih
        · rw [List.singleton_append, unescaped_cons hand, ih]

/-! ### Texts without fences -/

/-- A line without a fence in front is rendered by `renderLine` as one line, in a block and out of
it. -/
theorem renderLine_of_not_fenced {raw : Text} (h : ¬fence <+: strip raw) (inside : Bool) :
    renderLine inside raw = ([markSpans false (escaped (strip raw))], inside) := by
  have hnone : afterStart? fence (escaped (strip raw)) = none := by
    cases hrest : afterStart? fence (escaped (strip raw)) with
    | none => rfl
    | some rest =>
      have hstart : fence <+: escaped (strip raw) := ⟨rest, (eq_append_of_afterStart? hrest).symm⟩
      exact absurd (isPrefix_of_escaped (by decide) hstart) h
  rw [renderLine, hnone]

/-- A text none of whose lines begins with a `fence`. -/
def Unfenced (t : Text) : Prop := ∀ raw ∈ lines t, ¬fence <+: strip raw

instance (t : Text) : Decidable (Unfenced t) :=
  List.decidableBAll (fun raw : Text => ¬fence <+: strip raw) (lines t)

/-- An `Unfenced` text is rendered line by line, each line for itself. -/
theorem render_of_unfenced {t : Text} (hne : t ≠ []) (h : Unfenced t) :
    render t = (lines t).map fun raw => markSpans false (escaped (strip raw)) := by
  have hlines : ∀ raws : List Text, (∀ raw ∈ raws, ¬fence <+: strip raw) →
      renderLines false raws = raws.map fun raw => markSpans false (escaped (strip raw)) := by
    intro raws
    induction raws with
    | nil => exact fun _ => rfl
    | cons raw raws ih =>
      intro hraws
      rw [List.forall_mem_cons] at hraws
      rw [renderLines, renderLine_of_not_fenced hraws.1, ih hraws.2]
      rfl
  rw [render, if_neg (by simpa using hne), hlines _ h]

/-- A rendered line is read by `readBack` as the line without white space around it. -/
theorem readBack_markSpans (raw : Text) :
    readBack (markSpans false (escaped (strip raw))) = strip raw := by
  rw [readBack, unmarked_markSpans (bracket_not_mem_escaped _).1, unescaped_escaped]

/-- The lines of an `Unfenced` text are read back from the rendered ones, all of them and in order.
-/
theorem map_readBack_render {t : Text} (hne : t ≠ []) (h : Unfenced t) :
    (render t).map readBack = (lines t).map strip := by
  rw [render_of_unfenced hne h, List.map_map]
  exact List.map_congr_left fun raw _ => readBack_markSpans raw

/-- Outside fences, `render` loses nothing but the white space around lines: there is one rendered
line for each line of the text, and it is read back as that line. So two texts without fences are
rendered alike exactly when they agree line by line. -/
theorem render_reads_back {t : Text} (hne : t ≠ []) (h : Unfenced t) :
    (render t).length = (lines t).length ∧ (render t).map readBack = (lines t).map strip ∧
      ∀ s, s ≠ [] → Unfenced s →
        (render s = render t ↔ (lines s).map strip = (lines t).map strip) := by
  have hread := map_readBack_render hne h
  refine ⟨?_, hread, fun s hs hfree => ⟨fun heq => ?_, fun heq => ?_⟩⟩
  · rw [render_of_unfenced hne h, List.length_map]
  · rw [← map_readBack_render hs hfree, heq, hread]
  · -- The other way round a rendered line is made of the stripped line alone.
    have hmade : ∀ u, u ≠ [] → Unfenced u →
        render u = ((lines u).map strip).map fun line => markSpans false (escaped line) := by
      intro u hu hunfenced
      rw [render_of_unfenced hu hunfenced, List.map_map]
      rfl
    rw [hmade s hs hfree, hmade t hne h, heq]

/-- A text with markers, entities and a backtick that nothing closes is read from the lines of
`render`. -/
theorem render_reads_back_markers :
    let t : Text := "Use \x60<c>\x60,\n  not &lt;c&gt; or \x60c\t"
    t ≠ [] ∧ Unfenced t ∧
      render t = ["Use <c>&lt;c&gt;</c>,".toList, "not &amp;lt;c&amp;gt; or <c>c".toList] ∧
      (render t).length = 2 ∧ (render t).map readBack = (lines t).map strip := by
  intro t
  have hne : t ≠ [] := by decide
  have hfree : Unfenced t := by decide
  obtain ⟨hlength, hread, -⟩ := render_reads_back hne hfree
  exact ⟨hne, hfree, by decide, hlength.trans (by decide), hread⟩

end TypedOps.Comment
