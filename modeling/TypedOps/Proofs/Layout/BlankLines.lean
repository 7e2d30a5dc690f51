import Mathlib.Data.List.TakeWhile
import TypedOps.Layout.Format
import TypedOps.Proofs.Layout.Scan

/-!
# `TypedOps.Proofs.Layout.BlankLines`: laying out lines part by part

Laying out reads more than one line at a time: the scanner carries a bit, a class line
eats the blank lines behind it, and a definition puts right the blank lines in front of
it. None of this reaches past a line that is not blank. `normalizeFrom_above` is the
step: whatever is written on top of such a line, neither the line nor what is below it
is touched, and what comes on top does not depend on them.

Lines are `Settled` when their last one is neither blank nor a class line nor a
definition, and no docstring is open behind it. Behind settled lines the layout starts
afresh, as it does behind any other such line. So `layOut_append` cuts the layout of
two parts into the layouts of each, and the second is what `layOutBehind` gives.
-/

set_option autoImplicit false

namespace TypedOps.Layout

open Text

/-- The lines that lines of code are laid out as, by both passes: `normalizeBlankLines` and then
`wrapLines`. -/
def layOut (ls : List Text) : List Text := wrapLines (normalizeBlankLines ls)

/-- A line that is neither blank nor opens anything. For `normalizeBlankLines` it stands for any
code in front of the lines to be laid out. -/
def bareLine : Text := "pass"

/-- The lines that lines are laid out as behind a `bareLine`. -/
def layOutBehind (ls : List Text) : List Text := (layOut (bareLine :: ls)).tail

/-- What the first pass makes of lines behind a `bareLine`. -/
def normalizeBehind (ls : List Text) : List Text :=
  (normalizeFrom false [bareLine] (scan ls)).tail

/-- Lines behind which the layout starts afresh, so that `layOut` goes through them one block at a
time. The text of a module is put together from such blocks. -/
structure Settled (ls : List Text) : Prop where
  /-- The last line is neither blank nor a class line nor a definition. -/
  last : ∃ init line, ls = init ++ [line] ∧ isBlankLine line = false ∧
    isDefinition line = false ∧ isClassLine line = false
  /-- No docstring is open. -/
  outside : insideAfter false ls = false

/-- A line that `strip` turns into a text whose first code point begins neither keyword is not
blank, no definition and no class line. -/
theorem settles_of_strip {line : Text} {c : Char} {rest : Text} (h : strip line = c :: rest)
    (hc : c ≠ 'c') (hd : c ≠ 'd') :
    isBlankLine line = false ∧ isDefinition line = false ∧ isClassLine line = false := by
  refine ⟨?_, ?_, ?_⟩
  · rw [isBlankLine, h]
    rfl
  · simp [isDefinition, h, afterStart?, Ne.symm hc, Ne.symm hd]
  · simp [isClassLine, h, startsWith, afterStart?, Ne.symm hc]

/-! ### The first pass -/

/-- Blank lines are counted by `withBlanks` on top of a line that is not blank, and no further down.
-/
theorem withBlanks_above (count : Nat) (written : List Text) {top : Text} (base : List Text)
    (htop : isBlankLine top = false) :
    withBlanks count (written ++ top :: base) =
      (List.replicate (count - (written.takeWhile isBlankLine).length) [] ++
        written.drop ((written.takeWhile isBlankLine).length - count)) ++ top :: base := by
  have hblanks : (written ++ top :: base).takeWhile isBlankLine =
      written.takeWhile isBlankLine := by
    induction written with
    | nil => simp [htop]
    | cons line written ih =>
      rw [List.cons_append, List.takeWhile_cons, List.takeWhile_cons, ih]
  have hshort : (written.takeWhile isBlankLine).length - count ≤ written.length := by
    have hstart := (List.takeWhile_prefix isBlankLine (l := written)).length_le
    omega
  rw [withBlanks, hblanks, List.drop_append_of_le_length hshort]
  simp

/-- Writing on top of a line that is not blank, `normalizeFrom` leaves it and what is below it
alone, and adds lines that depend on neither. -/
theorem normalizeFrom_above (afterClass : Bool) (written : List Text)
    (ls : List ScannedLine) :
    ∃ added, ∀ top base, isBlankLine top = false →
      normalizeFrom afterClass (written ++ top :: base) ls = base.reverse ++ top :: added := by
  -- The lines to come are taken one by one, with what is written on top so far as the
  -- state. Each of the four things that may happen to a line only touches the top.
  induction ls generalizing afterClass written with
  | nil =>
    refine ⟨written.reverse, fun top base _ => ?_⟩
    simp [normalizeFrom]
  | cons line ls ih =>
    obtain ⟨text, flag⟩ := line
    -- A definition adds itself and the blank lines in front of it.
    have hblanks : ∀ count, ∃ added, ∀ top base, isBlankLine top = false →
        normalizeFrom (isClassLine text) (text :: withBlanks count (written ++ top :: base)) ls =
          base.reverse ++ top :: added := by
      intro count
      obtain ⟨added, hadded⟩ := ih (isClassLine text)
        (text :: (List.replicate (count - (written.takeWhile isBlankLine).length) [] ++
          written.drop ((written.takeWhile isBlankLine).length - count)))
      refine ⟨added, fun top base htop => ?_⟩
      rw [withBlanks_above count written base htop]
      exact hadded top base htop
    have hplain : ∀ after, ∃ added, ∀ top base, isBlankLine top = false →
        normalizeFrom after (text :: (written ++ top :: base)) ls = base.reverse ++ top :: added :=
      fun after => ih after (text :: written)
    cases flag with
    | true => exact hplain false
    | false =>
      simp only [normalizeFrom]
      split
      · exact hblanks 2
      · split
        · exact hblanks 1
        · split
          · exact ih afterClass written
          · exact hplain (isClassLine text)

/-- What is written on top of any line that is not blank is what `normalizeBehind` gives. -/
theorem normalizeFrom_scan (ls : List Text) {top : Text} (base : List Text)
    (htop : isBlankLine top = false) :
    normalizeFrom false (top :: base) (scan ls) =
      base.reverse ++ top :: normalizeBehind ls := by
  obtain ⟨added, hadded⟩ := normalizeFrom_above false [] (scan ls)
  have hbare := hadded bareLine [] (by decide)
  rw [List.nil_append, List.reverse_nil, List.nil_append] at hbare
  rw [normalizeBehind, hbare]
  exact hadded top base htop

/-- A line that is neither blank nor a class line nor a definition is written by `normalizeFrom` as
it is, wherever it stands, and what comes behind it starts afresh. -/
theorem normalizeFrom_settled (afterClass : Bool) (written : List Text)
    (before : List ScannedLine) {line : Text} (flag : Bool) (ls : List Text)
    (hblank : isBlankLine line = false) (hdefinition : isDefinition line = false)
    (hclass : isClassLine line = false) :
    normalizeFrom afterClass written (before ++ ⟨line, flag⟩ :: scan ls) =
      normalizeFrom afterClass written (before ++ [⟨line, flag⟩]) ++ normalizeBehind ls := by
  induction before generalizing afterClass written with
  | nil =>
    -- Neither state matters for such a line, and both are reset behind it.
    have hstep : ∀ rest, normalizeFrom afterClass written (⟨line, flag⟩ :: rest) =
        normalizeFrom false (line :: written) rest := by
      intro rest
      cases flag with
      | true => rfl
      | false => simp [normalizeFrom, hdefinition, hblank, hclass]
    rw [List.nil_append, List.nil_append, hstep, hstep, normalizeFrom_scan ls written hblank]
    simp [normalizeFrom]
  | cons first before ih =>
    obtain ⟨text, flag'⟩ := first
    cases flag' with
    | true => exact ih false (text :: written)
    | false =>
      simp only [List.cons_append, normalizeFrom]
      split
      · exact ih _ _
      · split
        · exact ih _ _
        · split
          · exact ih _ _
          · exact ih _ _

/-- The first pass over `Settled` lines and others behind them goes over the others by itself. -/
theorem normalizeFrom_scan_append (afterClass : Bool) (written : List Text) {ls : List Text}
    (h : Settled ls) (ms : List Text) :
    normalizeFrom afterClass written (scan (ls ++ ms)) =
      normalizeFrom afterClass written (scan ls) ++ normalizeBehind ms := by
  obtain ⟨init, line, rfl, hblank, hdefinition, hclass⟩ := h.last
  have hscan : ∃ flag, scan (init ++ [line]) = scan init ++ [⟨line, flag⟩] := by
    rw [scan, scanFrom_append]
    exact ⟨_, rfl⟩
  obtain ⟨flag, hflag⟩ := hscan
  have hall : scan (init ++ [line] ++ ms) = scan init ++ ⟨line, flag⟩ :: scan ms := by
    rw [scan, scanFrom_append, h.outside, ← scan, ← scan, hflag, List.append_assoc]
    rfl
  rw [hall, hflag]
  exact normalizeFrom_settled afterClass written _ flag ms hblank hdefinition hclass

/-! ### The second pass -/

/-- A line is an `isBlankLine` exactly when it is made of white space, or of nothing. -/
theorem isBlankLine_iff (line : Text) : isBlankLine line = true ↔ ∀ c ∈ line, isBlank c = true := by
  -- Stripping to nothing means that what the front leaves is dropped from the end.
  rw [isBlankLine, List.isEmpty_iff, strip, trim, trimEnd, List.reverse_eq_nil_iff,
    List.dropWhile_eq_nil_iff]
  constructor
  · intro h c hc
    rw [← List.takeWhile_append_dropWhile (p := isBlank) (l := line)] at hc
    rcases List.mem_append.mp hc with hc | hc
    · exact List.mem_takeWhile_imp hc
    · exact h c (List.mem_reverse.mpr hc)
  · intro h c hc
    exact h c ((List.dropWhile_suffix isBlank).subset (List.mem_reverse.mp hc))

/-- A line with a code point that is no white space is no `isBlankLine`. -/
theorem isBlankLine_eq_false {line : Text} {c : Char} (hmem : c ∈ line) (hc : isBlank c = false) :
    isBlankLine line = false := by
  rw [Bool.eq_false_iff]
  intro hblank
  rw [(isBlankLine_iff line).mp hblank c hmem] at hc
  cases hc

/-- A blank line has no `tripleQuotes`, so it does not move the scanner. -/
theorem tripleQuotes_of_isBlankLine {line : Text} (h : isBlankLine line = true) :
    tripleQuotes line = 0 := by
  refine tripleQuotes_of_count_le ?_
  have hall := (isBlankLine_iff line).mp h
  rw [List.count_eq_zero.mpr fun hmem => absurd (hall _ hmem) (by decide)]
  omega

/-- Whether a line is not blank for `isBlankLine`. The first pass keeps all lines of this kind. -/
def isTextLine (line : Text) : Bool := !isBlankLine line

/-- A blank line is left out when lines are filtered by `isTextLine`. -/
theorem filter_cons_blank {line : Text} (h : isBlankLine line = true) (ls : List Text) :
    (line :: ls).filter isTextLine = ls.filter isTextLine :=
  List.filter_cons_of_neg (by simp [isTextLine, h])

/-- Blank lines do not move the scanner, so `insideAfter` is the same without them. -/
theorem insideAfter_filter (inside : Bool) (ls : List Text) :
    insideAfter inside (ls.filter isTextLine) = insideAfter inside ls := by
  induction ls generalizing inside with
  | nil => rfl
  | cons line ls ih =>
    cases hblank : isBlankLine line with
    | true =>
      rw [filter_cons_blank hblank, insideAfter, tripleQuotes_of_isBlankLine hblank, bne_bare]
      exact ih inside
    | false =>
      rw [List.filter_cons_of_pos (by simp [isTextLine, hblank]), insideAfter, insideAfter]
      exact ih _

/-- To `drop` some of the blank lines in front drops no other line. -/
theorem filter_drop_blank {count : Nat} {ls : List Text}
    (h : count ≤ (ls.takeWhile isBlankLine).length) :
    (ls.drop count).filter isTextLine = ls.filter isTextLine := by
  induction ls generalizing count with
  | nil => simp
  | cons line ls ih =>
    cases count with
    | zero => rfl
    | succ count =>
      rw [List.takeWhile_cons] at h
      split at h
      · next hblank =>
        rw [List.length_cons, Nat.succ_le_succ_iff] at h
        rw [List.drop_succ_cons, filter_cons_blank hblank, ih h]
      · simp at h

/-- Blank lines are put right by `withBlanks`, and nothing changes about the other lines. -/
theorem filter_withBlanks (count : Nat) (written : List Text) :
    (withBlanks count written).filter isTextLine = written.filter isTextLine := by
  have hblanks : ∀ n, (List.replicate n ([] : Text)).filter isTextLine = [] := by
    intro n
    have hempty : isTextLine [] = false := by decide
    simp [hempty]
  rw [withBlanks]
  split
  · next hempty => rw [List.isEmpty_iff.mp hempty]
  · rw [List.filter_append, hblanks, List.nil_append]
    exact filter_drop_blank (Nat.sub_le _ _)

/-- The first pass, which is `normalizeFrom`, neither loses nor moves a line that is not blank. The
induction is over the lines. -/
theorem filter_normalizeFrom (afterClass : Bool) (written : List Text)
    (ls : List ScannedLine) :
    (normalizeFrom afterClass written ls).filter isTextLine =
      (written.reverse ++ ls.map ScannedLine.text).filter isTextLine := by
  induction ls generalizing afterClass written with
  | nil => simp [normalizeFrom]
  | cons line ls ih =>
    obtain ⟨text, flag⟩ := line
    -- Putting blank lines right below the line does not show once they are left out.
    have hwritten : ∀ after below : List Text,
        below.filter isTextLine = written.filter isTextLine →
        ((text :: below).reverse ++ after).filter isTextLine =
          (written.reverse ++ text :: after).filter isTextLine := by
      intro after below hbelow
      simp only [List.reverse_cons, List.append_assoc, List.filter_append, List.filter_reverse,
        hbelow]
      rw [← List.filter_append, List.singleton_append]
    cases flag with
    | true => exact (ih false (text :: written)).trans (hwritten _ written rfl)
    | false =>
      simp only [normalizeFrom]
      split
      · exact (ih _ _).trans (hwritten _ _ (filter_withBlanks 2 written))
      · split
        · exact (ih _ _).trans (hwritten _ _ (filter_withBlanks 1 written))
        · split
          · next hskip =>
            rw [Bool.and_eq_true] at hskip
            rw [ih, List.map_cons, List.filter_append, List.filter_append,
              filter_cons_blank hskip.2]
          · exact (ih _ _).trans (hwritten _ written rfl)

/-- The first pass, which is `normalizeBehind` for what follows a part, leaves the scanner where the
lines leave it. -/
theorem insideAfter_normalizeBehind (ls : List Text) :
    insideAfter false (normalizeBehind ls) = insideAfter false ls := by
  have hbare : isBlankLine bareLine = false := by decide
  have hkeep : isTextLine bareLine = true := by decide
  -- Blank lines come and go in the first pass, and the scanner does not see them.
  have hfilter := filter_normalizeFrom false [bareLine] (scan ls)
  rw [normalizeFrom_scan ls [] hbare, List.reverse_nil, List.nil_append, scan,
    map_text_scanFrom, List.reverse_singleton, List.singleton_append,
    List.filter_cons_of_pos hkeep, List.filter_cons_of_pos hkeep] at hfilter
  rw [← insideAfter_filter false (normalizeBehind ls), (List.cons.inj hfilter).2,
    insideAfter_filter]

/-! ### Both passes -/

/-- Lines are wrapped by `wrapLines` part by part, if no docstring is open between the parts. -/
theorem wrapLines_append {ls : List Text} (h : insideAfter false ls = false) (ms : List Text) :
    wrapLines (ls ++ ms) = wrapLines ls ++ wrapLines ms := by
  rw [wrapLines, scan, scanFrom_append, h, List.flatMap_append]
  rfl

/-- Behind a `bareLine`, lines are laid out by the second pass over what the first one makes of
them. -/
theorem layOutBehind_eq (ls : List Text) : layOutBehind ls = wrapLines (normalizeBehind ls) := by
  have hbare : tripleQuotes bareLine = 0 := by decide
  have hnormalize : normalizeBlankLines (bareLine :: ls) = bareLine :: normalizeBehind ls := by
    rw [normalizeBlankLines, scan, scanFrom_cons, hbare, bne_bare]
    exact normalizeFrom_scan ls [] (by decide)
  have houtside : insideAfter false [bareLine] = false := by decide
  have hwrap : wrapLines [bareLine] = [bareLine] := by decide
  rw [layOutBehind, layOut, hnormalize, ← List.singleton_append, wrapLines_append houtside, hwrap]
  rfl

/-- Behind `Settled` lines the layout starts afresh, as it would behind a `bareLine`. -/
theorem layOut_append {ls : List Text} (h : Settled ls) (ms : List Text) :
    layOut (ls ++ ms) = layOut ls ++ layOutBehind ms := by
  -- The second pass scans again, so the first must leave no docstring open either.
  have hinside : insideAfter false (normalizeFrom false [] (scan ls)) = false := by
    rw [← insideAfter_filter, filter_normalizeFrom, List.reverse_nil, List.nil_append, scan,
      map_text_scanFrom, insideAfter_filter, h.outside]
  rw [layOut, normalizeBlankLines, normalizeFrom_scan_append false [] h, wrapLines_append hinside,
    layOutBehind_eq]
  rfl

/-- Behind `Settled` lines the layout starts afresh, also if a `bareLine` stands in front of them.
-/
theorem layOutBehind_append {ls : List Text} (h : Settled ls) (ms : List Text) :
    layOutBehind (ls ++ ms) = layOutBehind ls ++ layOutBehind ms := by
  have hbehind : normalizeBehind (ls ++ ms) = normalizeBehind ls ++ normalizeBehind ms := by
    rw [normalizeBehind, normalizeFrom_scan_append false [bareLine] h,
      normalizeFrom_scan ls [] (by decide)]
    rfl
  have hinside : insideAfter false (normalizeBehind ls) = false := by
    rw [insideAfter_normalizeBehind, h.outside]
  rw [layOutBehind_eq, layOutBehind_eq, layOutBehind_eq, hbehind, wrapLines_append hinside]

/-- Blocks that are `Settled` are laid out one by one. -/
theorem layOutBehind_flatMap {α : Type} {f : α → List Text} {xs : List α}
    (h : ∀ x ∈ xs, Settled (f x)) (ms : List Text) :
    layOutBehind (xs.flatMap f ++ ms) =
      xs.flatMap (fun x => layOutBehind (f x)) ++ layOutBehind ms := by
  induction xs with
  | nil => rfl
  | cons x xs ih =>
    rw [List.flatMap_cons, List.append_assoc, layOutBehind_append (h x List.mem_cons_self),
      ih fun y hy => h y (List.mem_cons_of_mem x hy), List.flatMap_cons, List.append_assoc]

end TypedOps.Layout
