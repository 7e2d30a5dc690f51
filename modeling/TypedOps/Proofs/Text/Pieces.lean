import Mathlib.Data.List.TakeDrop
import Mathlib.Data.List.TakeWhile
import TypedOps.Text.Blank

/-!
# `TypedOps.Proofs.Text.Pieces`: texts cut into pieces

Cutting a text at a separator gives pieces without it, and every piece stands
somewhere in the text. A text is its lines written one under the other
(`unlines_lines`), and lines written so are read back unchanged when none of them holds
a line feed (`lines_unlines`). A text behind another goes on with its last line
(`exists_lines_append`).

Trimming, dropping an end and looking behind a beginning only ever leave a
contiguous part of a text, which is what carries a property of all its parts from a
text to what is made of it.
-/

set_option autoImplicit false

namespace TypedOps.Text

/-- A text that stands on one line, as each of the `lines` of a text does. -/
def OneLine (t : Text) : Prop := '\n' ∉ t

instance (t : Text) : Decidable (OneLine t) := inferInstanceAs (Decidable ('\n' ∉ t))

/-- What is said of the code points in a text is decided along it. Going through all code points
there are would not end. -/
instance (t : Text) (p : Char → Prop) [DecidablePred p] : Decidable (∀ c ∈ t, p c) :=
  List.decidableBAll p t

instance (t : Text) (p : Char → Prop) [DecidablePred p] : Decidable (∃ c ∈ t, p c) :=
  List.decidableBEx p t

instance (o : Option Char) (p : Char → Prop) [DecidablePred p] : Decidable (∀ c ∈ o, p c) :=
  decidable_of_iff (∀ c ∈ o.toList, p c) (by simp only [Option.mem_toList, Option.mem_def])

/-- Two texts have `OneLine` exactly when both together have it. -/
theorem oneLine_append {s t : Text} : OneLine (s ++ t) ↔ OneLine s ∧ OneLine t := by
  simp [OneLine]

/-- What holds of the code points of a literal holds of the literal. To compute them out of it takes
the square of their number. -/
theorem of_literal (p : Text → Prop) {cs : List Char} (h : p cs) : p (String.ofList cs).toList := by
  rwa [String.toList_ofList]

/-- A run of code points is cut off where it ends: all of it passes the test of `List.span`, and
what stands behind it does not. -/
theorem exists_span (p : Char → Bool) (t : Text) : ∃ run rest, t.span p = (run, rest) ∧
    t = run ++ rest ∧ (∀ c ∈ run, p c = true) ∧ ∀ c ∈ rest.head?, p c = false := by
  refine ⟨t.takeWhile p, t.dropWhile p, List.span_eq_takeWhile_dropWhile p t,
    List.takeWhile_append_dropWhile.symm, fun c hc => List.mem_takeWhile_imp hc, fun c hc => ?_⟩
  have h := List.head?_dropWhile_not p t
  rw [Option.mem_def.mp hc] at h
  simpa using h

/-! ### Pieces between separators -/

/-- The first separator ends the first piece of `splitOn`. -/
theorem splitOn_append_cons {sep : Char} {s : Text} (h : sep ∉ s) (t : Text) :
    splitOn sep (s ++ sep :: t) = s :: splitOn sep t := by
  induction s with
  | nil => rw [List.nil_append, splitOn, if_pos rfl]
  | cons c s ih =>
    simp only [List.mem_cons, not_or] at h
    obtain ⟨hc, hs⟩ := h
    rw [List.cons_append, splitOn, if_neg (Ne.symm hc), ih hs]

/-- A text without separators is one piece for `splitOn`. -/
theorem splitOn_of_not_mem {sep : Char} {s : Text} (h : sep ∉ s) : splitOn sep s = [s] := by
  induction s with
  | nil => rfl
  | cons c s ih =>
    simp only [List.mem_cons, not_or] at h
    rw [splitOn, if_neg (Ne.symm h.1), ih h.2]

/-- There is always a piece for `splitOn`, even of the empty text. -/
theorem splitOn_ne_nil (sep : Char) (t : Text) : splitOn sep t ≠ [] := by
  cases t with
  | nil => simp [splitOn]
  | cons c t =>
    rw [splitOn]
    split
    · simp
    · split <;> simp

/-- Pieces of a text with `s` in front of the first. -/
def inFront (s : Text) : List Text → List Text
  | [] => [s]
  | piece :: pieces => (s ++ piece) :: pieces

/-- A text without separators in front of another makes the first piece of `splitOn` longer. -/
theorem splitOn_append {sep : Char} {s : Text} (h : sep ∉ s) (t : Text) :
    splitOn sep (s ++ t) = inFront s (splitOn sep t) := by
  induction s with
  | nil =>
    obtain ⟨piece, pieces, hsplit⟩ := List.exists_cons_of_ne_nil (splitOn_ne_nil sep t)
    rw [List.nil_append, hsplit]
    rfl
  | cons c s ih =>
    simp only [List.mem_cons, not_or] at h
    rw [List.cons_append, splitOn, if_neg (Ne.symm h.1), ih h.2]
    cases splitOn sep t <;> rfl

/-- A piece of `splitOn` is free of the separator. -/
theorem not_mem_of_mem_splitOn {sep : Char} {t piece : Text} (h : piece ∈ splitOn sep t) :
    sep ∉ piece := by
  induction t generalizing piece with
  | nil =>
    rw [splitOn, List.mem_singleton] at h
    simp [h]
  | cons c t ih =>
    rw [splitOn] at h
    split at h
    · -- A separator begins an empty piece.
      rcases List.mem_cons.mp h with rfl | h
      · simp
      · exact ih h
    · next hc =>
      -- Anything else joins the piece that the rest begins with.
      split at h
      · rw [List.mem_singleton] at h
        simp [h, Ne.symm hc]
      · next first rest hsplit =>
        rw [hsplit] at ih
        rcases List.mem_cons.mp h with rfl | h
        · have hfirst := ih List.mem_cons_self
          simp [Ne.symm hc, hfirst]
        · exact ih (List.mem_cons_of_mem _ h)

/-- The first piece of `splitOn` begins the text, and every piece stands somewhere in it. -/
theorem isInfix_splitOn (sep : Char) (t : Text) :
    (∀ first ∈ (splitOn sep t).head?, first <+: t) ∧ ∀ piece ∈ splitOn sep t, piece <:+: t := by
  -- The first piece is the one that the next code point in front may join, so the
  -- induction has to know that it stands at the front, not just somewhere.
  induction t with
  | nil => simp [splitOn]
  | cons c t ih =>
    obtain ⟨hfirst, hall⟩ := ih
    have hlater : ∀ piece ∈ splitOn sep t, piece <:+: c :: t := fun piece h =>
      (hall piece h).trans (List.suffix_cons c t).isInfix
    rw [splitOn]
    split
    · refine ⟨by simp, fun piece h => ?_⟩
      rcases List.mem_cons.mp h with rfl | h
      · exact List.nil_infix
      · exact hlater piece h
    · cases hsplit : splitOn sep t with
      | nil => exact absurd hsplit (splitOn_ne_nil sep t)
      | cons first rest =>
        rw [hsplit] at hfirst hlater
        -- The first piece grows by the code point in front of the text.
        have hgrown : c :: first <+: c :: t := by
          rw [List.cons_prefix_cons]
          exact ⟨rfl, hfirst first rfl⟩
        refine ⟨by simpa using hgrown, fun piece h => ?_⟩
        rcases List.mem_cons.mp h with rfl | h
        · exact hgrown.isInfix
        · exact hlater piece (List.mem_cons_of_mem _ h)

/-- Each of the `lines` of a text stands somewhere in it. -/
theorem isInfix_of_mem_lines {t line : Text} (h : line ∈ lines t) : line <:+: t :=
  (isInfix_splitOn '\n' t).2 line h

/-- Each of the `lines` of a text has `OneLine`. -/
theorem oneLine_of_mem_lines {t line : Text} (h : line ∈ lines t) : OneLine line :=
  not_mem_of_mem_splitOn h

/-- What stands in a `join` of pieces stands in the separator or in a piece. -/
theorem mem_join {sep : Text} {pieces : List Text} {c : Char} (h : c ∈ join sep pieces) :
    c ∈ sep ∨ ∃ piece ∈ pieces, c ∈ piece := by
  induction pieces with
  | nil => cases h
  | cons piece pieces ih =>
    cases pieces with
    | nil => exact .inr ⟨piece, List.mem_cons_self, h⟩
    | cons next rest =>
      rw [join, List.mem_append, List.mem_append] at h
      -- The code point is in the first piece, in the separator behind it, or among the rest.
      rcases h with (h | h) | h
      · exact .inr ⟨piece, List.mem_cons_self, h⟩
      · exact .inl h
      · rcases ih h with h | ⟨piece', hpiece', h⟩
        · exact .inl h
        · exact .inr ⟨piece', List.mem_cons_of_mem _ hpiece', h⟩

/-- A text is the pieces of `splitOn` with the separators put back. -/
theorem join_splitOn (sep : Char) (t : Text) : join [sep] (splitOn sep t) = t := by
  induction t with
  | nil => rfl
  | cons c t ih =>
    rw [splitOn]
    -- Cutting the rest gives at least one piece. The first code point is a separator in front of
    -- it, or belongs to it.
    cases hsplit : splitOn sep t with
    | nil => exact absurd hsplit (splitOn_ne_nil sep t)
    | cons piece pieces =>
      rw [hsplit] at ih
      split
      · next hc =>
        show [] ++ [sep] ++ join [sep] (piece :: pieces) = c :: t
        rw [ih, hc]
        rfl
      · cases pieces with
        | nil =>
          rw [join] at ih ⊢
          rw [ih]
        | cons next rest =>
          rw [join] at ih ⊢
          rw [← ih]
          rfl

/-- A text is its `lines` put under one another. -/
theorem unlines_lines (t : Text) : unlines (lines t) = t := join_splitOn '\n' t

/-- Lines with a last one are written by `unlines` so that no line feed ends the last one. -/
theorem unlines_concat (ls : List Text) (last : Text) :
    unlines (ls ++ [last]) = ls.flatMap (· ++ ['\n']) ++ last := by
  induction ls with
  | nil => rfl
  | cons l ls ih =>
    rw [unlines] at ih ⊢
    cases ls with
    | nil => simp [join]
    | cons next ls =>
      show l ++ ['\n'] ++ join ['\n'] (next :: ls ++ [last]) = _
      rw [ih]
      simp

/-- Lines written by `unlines`, with a line feed at the end, are lines that each end in one. -/
theorem unlines_linefeed {ls : List Text} (hne : ls ≠ []) :
    unlines ls ++ ['\n'] = ls.flatMap (· ++ ['\n']) := by
  rw [← List.dropLast_concat_getLast hne, unlines_concat]
  simp

/-- Lines written by `unlines` are read back, if there are any: no lines and one empty line have the
same text. -/
theorem lines_unlines {ls : List Text} (hne : ls ≠ []) (h : ∀ l ∈ ls, OneLine l) :
    lines (unlines ls) = ls := by
  induction ls with
  | nil => exact absurd rfl hne
  | cons l ls ih =>
    have hl : '\n' ∉ l := h l List.mem_cons_self
    have hrest : ∀ l ∈ ls, OneLine l := fun l hl => h l (List.mem_cons_of_mem _ hl)
    cases ls with
    | nil => exact splitOn_of_not_mem hl
    | cons next rest =>
      have ih := ih (List.cons_ne_nil _ _) hrest
      rw [lines, unlines] at ih ⊢
      rw [join, List.append_assoc, List.singleton_append, splitOn_append_cons hl, ih]

/-- Lines written by `unlines`, with a line feed at the end, are read back with an empty line behind
them. -/
theorem lines_unlines_linefeed {ls : List Text} (hne : ls ≠ []) (h : ∀ l ∈ ls, OneLine l) :
    lines (unlines ls ++ ['\n']) = ls ++ [[]] := by
  have hend : unlines ls ++ ['\n'] = unlines (ls ++ [[]]) := by
    rw [unlines_linefeed hne, unlines_concat, List.append_nil]
  rw [hend]
  refine lines_unlines (by simp) (List.forall_mem_append.mpr ⟨h, ?_⟩)
  simp [OneLine]

/-- Lines that each end in a line feed are the first `lines` of a text. -/
theorem lines_flatMap_append {ls : List Text} (h : ∀ l ∈ ls, OneLine l) (t : Text) :
    lines (ls.flatMap (· ++ ['\n']) ++ t) = ls ++ lines t := by
  induction ls with
  | nil => rfl
  | cons l ls ih =>
    rw [List.forall_mem_cons] at h
    rw [List.flatMap_cons, List.append_assoc, List.append_assoc, List.singleton_append, lines,
      splitOn_append_cons h.1, ← lines, ih h.2, List.cons_append]

/-- A text behind another goes on with the last of its `lines`. -/
theorem exists_lines_append (s : Text) :
    ∃ front last, lines s = front ++ [last] ∧
      ∀ t, lines (s ++ t) = front ++ inFront last (lines t) := by
  obtain ⟨front, last, hlines⟩ :=
    (List.eq_nil_or_concat (lines s)).resolve_left (splitOn_ne_nil '\n' s)
  rw [List.concat_eq_append] at hlines
  refine ⟨front, last, hlines, fun t => ?_⟩
  have hone : ∀ l ∈ front ++ [last], OneLine l := fun l hl =>
    oneLine_of_mem_lines (hlines ▸ hl)
  have hlast : '\n' ∉ last := hone last (by simp)
  have hwhole : s = front.flatMap (· ++ ['\n']) ++ last := by
    rw [← unlines_concat, ← hlines, unlines_lines]
  rw [hwhole, List.append_assoc, lines_flatMap_append fun l hl => hone l (by simp [hl]),
    lines, splitOn_append hlast, ← lines]

/-- A line feed between two texts keeps their `lines` apart. -/
theorem lines_append_linefeed (s t : Text) : lines (s ++ '\n' :: t) = lines s ++ lines t := by
  obtain ⟨front, last, hlines, happend⟩ := exists_lines_append s
  have hfeed : lines ('\n' :: t) = [] :: lines t := by rw [lines, splitOn, if_pos rfl, ← lines]
  rw [happend, hlines, hfeed, inFront, List.append_nil, List.append_assoc, List.singleton_append]

/-! ### What is left of a text -/

/-- A beginning of a text is left by `trimEnd`. -/
theorem isPrefix_trimEnd (drop : Char → Bool) (t : Text) : trimEnd drop t <+: t := by
  have hsuffix := List.dropWhile_suffix drop (l := t.reverse)
  rw [trimEnd]
  simpa using List.reverse_prefix.mpr hsuffix

/-- A contiguous part of a text is left by `strip`. -/
theorem isInfix_strip (t : Text) : strip t <:+: t :=
  (isPrefix_trimEnd isBlank _).isInfix.trans (List.dropWhile_suffix isBlank).isInfix

/-- White space in front of anything else is dropped by `isBlank`. -/
theorem dropWhile_blank_append {indent t : Text} (hindent : ∀ c ∈ indent, isBlank c = true)
    (hfirst : ∀ c ∈ t.head?, isBlank c = false) : (indent ++ t).dropWhile isBlank = t := by
  rw [List.dropWhile_append_of_pos hindent]
  cases t with
  | nil => rfl
  | cons c t => rw [List.dropWhile_cons_of_neg (by simp [hfirst c rfl])]

/-- A text that neither begins nor ends with white space is what `strip` leaves of it behind some.
-/
theorem strip_append {indent t : Text} (hindent : ∀ c ∈ indent, isBlank c = true)
    (hfirst : ∀ c ∈ t.head?, isBlank c = false) (hlast : ∀ c ∈ t.getLast?, isBlank c = false) :
    strip (indent ++ t) = t := by
  have hend : t.reverse.dropWhile isBlank = t.reverse := by
    cases hreverse : t.reverse with
    | nil => rfl
    | cons c rest =>
      have hc : isBlank c = false := hlast c (by rw [← List.head?_reverse, hreverse]; rfl)
      rw [List.dropWhile_cons_of_neg (by simp [hc])]
  rw [strip, trim, dropWhile_blank_append hindent hfirst, trimEnd, hend, List.reverse_reverse]

/-- What is left of a text behind `strip` begins with no white space. -/
theorem head?_strip (t : Text) : ∀ c ∈ (strip t).head?, isBlank c = false := by
  intro c hc
  have hstart := isPrefix_trimEnd isBlank (t.dropWhile isBlank)
  rw [strip, trim] at hc
  cases htrim : trimEnd isBlank (t.dropWhile isBlank) with
  | nil =>
    rw [htrim] at hc
    cases hc
  | cons d rest =>
    -- The end is trimmed last, which leaves the first code point where it is.
    rw [htrim] at hc hstart
    obtain ⟨behind, hbehind⟩ := hstart
    have h := List.head?_dropWhile_not isBlank t
    rw [← hbehind] at h
    cases hc
    simpa using h

/-- What is left of a text behind `strip` ends with no white space. -/
theorem getLast?_strip (t : Text) : ∀ c ∈ (strip t).getLast?, isBlank c = false := by
  intro c hc
  have h := List.head?_dropWhile_not isBlank (t.dropWhile isBlank).reverse
  rw [strip, trim, trimEnd, List.getLast?_reverse] at hc
  rw [hc] at h
  simpa using h

/-- A text with no white space at either end is left by `strip` as it is. -/
theorem strip_eq_self {t : Text} (hfirst : ∀ c ∈ t.head?, isBlank c = false)
    (hlast : ∀ c ∈ t.getLast?, isBlank c = false) : strip t = t := by
  have hindent : ∀ c ∈ ([] : Text), isBlank c = true := by simp
  have hstrip := strip_append hindent hfirst hlast
  rwa [List.nil_append] at hstrip

/-- The first code point that is not white space comes first behind `strip`. -/
theorem exists_strip_eq {indent : Text} (hindent : ∀ c ∈ indent, isBlank c = true) {c : Char}
    (hc : isBlank c = false) (t : Text) : ∃ rest, strip (indent ++ c :: t) = c :: rest := by
  have hfront : (indent ++ c :: t).dropWhile isBlank = c :: t :=
    dropWhile_blank_append hindent (by simpa using hc)
  have hstart := isPrefix_trimEnd isBlank (c :: t)
  rw [strip, trim, hfront]
  -- Not all of the text is cut off, since its first code point is not blank.
  cases htrim : trimEnd isBlank (c :: t) with
  | nil =>
    rw [trimEnd, List.reverse_eq_nil_iff, List.dropWhile_eq_nil_iff] at htrim
    have hblank := htrim c (by simp)
    rw [hc] at hblank
    cases hblank
  | cons d rest =>
    rw [htrim, List.cons_prefix_cons] at hstart
    exact ⟨rest, by rw [hstart.1]⟩

/-- What `trimEnd` takes from the end of a text is all dropped. -/
theorem exists_trimEnd_append (drop : Char → Bool) (t : Text) :
    ∃ behind, t = trimEnd drop t ++ behind ∧ ∀ c ∈ behind, drop c = true := by
  refine ⟨(t.reverse.takeWhile drop).reverse, ?_, fun c hc => ?_⟩
  · rw [trimEnd, ← List.reverse_append, List.takeWhile_append_dropWhile, List.reverse_reverse]
  · exact List.mem_takeWhile_imp (List.mem_reverse.mp hc)

/-- Around what is left of a text behind `strip` stands white space only. -/
theorem exists_strip_append (t : Text) :
    ∃ front behind, t = front ++ (strip t ++ behind) ∧ (∀ c ∈ front, isBlank c = true) ∧
      ∀ c ∈ behind, isBlank c = true := by
  obtain ⟨behind, hbehind, hblank⟩ := exists_trimEnd_append isBlank (t.dropWhile isBlank)
  refine ⟨t.takeWhile isBlank, behind, ?_, fun c hc => List.mem_takeWhile_imp hc, hblank⟩
  rw [strip, trim, ← hbehind, List.takeWhile_append_dropWhile]

/-- White space behind a text is taken away by `strip` with the rest. -/
theorem strip_append_blank (t : Text) {behind : Text} (h : ∀ c ∈ behind, isBlank c = true) :
    strip (t ++ behind) = strip t := by
  have hnone : behind.dropWhile isBlank = [] := List.dropWhile_eq_nil_iff.mpr h
  have hend : ∀ u : Text, trimEnd isBlank (u ++ behind) = trimEnd isBlank u := by
    intro u
    rw [trimEnd, List.reverse_append, List.dropWhile_append_of_pos (by simpa using h), ← trimEnd]
  rw [strip, trim, List.dropWhile_append]
  split
  · next hempty =>
    rw [hnone, strip, trim, List.isEmpty_iff.mp hempty]
  · exact hend _

/-- A text that is not blank has a first code point that `isBlank` does not accept. -/
theorem exists_first_nonblank {t : Text} (h : ∃ c ∈ t, isBlank c = false) :
    ∃ indent c rest, t = indent ++ c :: rest ∧ (∀ d ∈ indent, isBlank d = true) ∧
      isBlank c = false := by
  induction t with
  | nil => simp at h
  | cons c t ih =>
    by_cases hc : isBlank c = true
    · obtain ⟨d, hd, hsome⟩ := h
      rcases List.mem_cons.mp hd with rfl | hd
      · rw [hc] at hsome
        cases hsome
      · obtain ⟨indent, e, rest, rfl, hindent, he⟩ := ih ⟨d, hd, hsome⟩
        exact ⟨c :: indent, e, rest, rfl, List.forall_mem_cons.mpr ⟨hc, hindent⟩, he⟩
    · exact ⟨[], c, t, rfl, by simp, by simpa using hc⟩

/-- A text without the separator is not cut by `cut`. -/
theorem cut_of_not_mem {sep : Char} {s : Text} (h : sep ∉ s) : cut sep s = (s, none) := by
  induction s with
  | nil => rfl
  | cons c s ih =>
    simp only [List.mem_cons, not_or] at h
    rw [cut, if_neg (Ne.symm h.1), ih h.2]

/-- A text is cut by `cut` at its first separator. -/
theorem cut_append_cons {sep : Char} {s : Text} (h : sep ∉ s) (t : Text) :
    cut sep (s ++ sep :: t) = (s, some t) := by
  induction s with
  | nil => rw [List.nil_append, cut, if_pos rfl]
  | cons c s ih =>
    simp only [List.mem_cons, not_or] at h
    rw [List.cons_append, cut, if_neg (Ne.symm h.1), ih h.2]

/-- In front of the first separator stands what `takeWhile` takes up to it. -/
theorem takeWhile_append_cons {sep : Char} {s : Text} (h : sep ∉ s) (t : Text) :
    (s ++ sep :: t).takeWhile (· != sep) = s := by
  have hs : ∀ c ∈ s, (c != sep) = true := by
    intro c hc
    have hne : c ≠ sep := by
      rintro rfl
      exact h hc
    simpa using hne
  rw [List.takeWhile_append_of_pos hs, List.takeWhile_cons_of_neg (by simp), List.append_nil]

/-- A run is cut off by `span` in front of what ends it. -/
theorem span_append {p : Char → Bool} {run rest : Text} (hrun : ∀ c ∈ run, p c = true)
    (hrest : ∀ c ∈ rest.head?, p c = false) : (run ++ rest).span p = (run, rest) := by
  have hbehind : rest.takeWhile p = [] ∧ rest.dropWhile p = rest := by
    cases rest with
    | nil => exact ⟨rfl, rfl⟩
    | cons c rest =>
      have hc : ¬p c = true := by simp [hrest c rfl]
      exact ⟨List.takeWhile_cons_of_neg hc, List.dropWhile_cons_of_neg hc⟩
  rw [List.span_eq_takeWhile_dropWhile, List.takeWhile_append_of_pos hrun,
    List.dropWhile_append_of_pos hrun, hbehind.1, hbehind.2, List.append_nil]

/-- The rest of a text is found by `afterStart?` behind its beginning. -/
theorem afterStart?_append (start rest : Text) : afterStart? start (start ++ rest) = some rest := by
  induction start with
  | nil => rfl
  | cons c start ih => rw [List.cons_append, afterStart?, if_pos rfl, ih]

/-- What `afterStart?` gives behind a beginning is an end of the text. -/
theorem eq_append_of_afterStart? {start t rest : Text} (h : afterStart? start t = some rest) :
    t = start ++ rest := by
  induction start generalizing t with
  | nil =>
    rw [afterStart?] at h
    cases h
    rfl
  | cons c start ih =>
    -- The beginning is taken off one code point at a time.
    cases t with
    | nil => simp [afterStart?] at h
    | cons d t =>
      rw [afterStart?] at h
      split at h
      · next hcd =>
        rw [hcd, ih h]
        rfl
      · cases h

/-- A text without its end, by `dropEnd`, is what stands in front of it. -/
theorem dropEnd_append (s t : Text) : dropEnd (s ++ t) t.length = s := by
  rw [dropEnd, List.length_append, Nat.add_sub_cancel, List.take_left']
  rfl

end TypedOps.Text
