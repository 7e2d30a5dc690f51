import TypedOps.Proofs.Layout.Spacing

/-!
# `TypedOps.Proofs.Layout.WellSpaced`: where blank lines stand

`WellSpaced` says for each place in a file which blank lines are there: how many in front of a
definition, and whether any behind a class line. `wellSpaced_scan_respaced` gets it for every text
from `eq_of_respaceFrom`: a solid line of the result stands behind what `spacing` made of the blank
lines in front of it. `spacing` knows what kind of line stands above those, and the lines in front
end in such a line (`Above.Of`).
-/

set_option autoImplicit false

namespace TypedOps.Layout

open Text

/-- A text with its blank lines put right, as the first pass of `format` does it. -/
def respaced (code : Text) : Text := unlines (normalizeBlankLines (lines code))

/-- Whether exactly `count` blank lines end some lines, all outside docstrings. -/
def EndsBlank (count : Nat) (ls : List ScannedLine) : Prop :=
  ∃ front blanks, ls = front ++ unmarked blanks ∧ blanks.length = count ∧
    (∀ t ∈ blanks, isBlankLine t = true) ∧
    ∀ top ∈ front.getLast?, isBlankLine top.text = false

/-- Blank lines stand where they are to stand, outside docstrings. How many there are in front of a
line is said by `EndsBlank`. -/
structure WellSpaced (ls : List ScannedLine) : Prop where
  /-- A definition at the margin is the first line, or has two blank lines in front. -/
  margin : ∀ before line after, ls = before ++ line :: after → line.inDocstring = false →
    isDefinition line.text = true → startsWith line.text " " = false →
    before = [] ∨ EndsBlank 2 before
  /-- A definition below the margin is the first line, or stands behind a class line, or has one
  blank line in front. -/
  nested : ∀ before line after, ls = before ++ line :: after → line.inDocstring = false →
    isDefinition line.text = true → startsWith line.text " " = true →
    before = [] ∨
      (∃ front top, before = front ++ [top] ∧ top.inDocstring = false ∧
        isClassLine top.text = true) ∨
      EndsBlank 1 before
  /-- Behind a class line there are blank ones only in front of a definition at the margin. -/
  behindClass : ∀ before line blank after, ls = before ++ line :: blank :: after →
    line.inDocstring = false → isClassLine line.text = true →
    blank.inDocstring = false → isBlankLine blank.text = true →
    ∃ blanks next rest, after = unmarked blanks ++ next :: rest ∧
      (∀ t ∈ blanks, isBlankLine t = true) ∧ next.inDocstring = false ∧
      isDefinition next.text = true ∧ startsWith next.text " " = false

/-! ### What stands above -/

/-- Lines that `above` describes: none, or lines that end in a solid one of that kind. -/
def Above.Of (above : Above) (ls : List ScannedLine) : Prop :=
  ls = [] ∧ above = .start ∨
    ∃ front top, ls = front ++ [top] ∧ top.isSolid = true ∧ above = top.above

/-- A line that `isSolid` is none of some blank lines outside docstrings. -/
theorem not_mem_unmarked {line : ScannedLine} (hline : line.isSolid = true) {blanks : List Text}
    (hblanks : ∀ t ∈ blanks, isBlankLine t = true) : line ∉ unmarked blanks := by
  intro hmem
  obtain ⟨t, ht, rfl⟩ := List.mem_map.mp hmem
  simp [ScannedLine.isSolid, hblanks t ht] at hline

/-- Two lines with `isSolid`, with blank lines in front of the first: the second is the first, or
comes behind it. -/
theorem split_behind_blanks {blanks : List Text} {first line : ScannedLine}
    {ls before after : List ScannedLine} (hblanks : ∀ t ∈ blanks, isBlankLine t = true)
    (hline : line.isSolid = true)
    (h : unmarked blanks ++ first :: ls = before ++ line :: after) :
    before = unmarked blanks ∧ line = first ∧ after = ls ∨
      ∃ more, before = unmarked blanks ++ first :: more ∧ ls = more ++ line :: after := by
  -- Either all the blank lines stand in front of the second line, or it would be one of them.
  rcases List.append_eq_append_iff.mp h with ⟨more, hbefore, hrest⟩ | ⟨more, hmore, hrest⟩
  · cases more with
    | nil =>
      obtain ⟨rfl, rfl⟩ := List.cons.inj hrest
      exact .inl ⟨by simpa using hbefore, rfl, rfl⟩
    | cons next more =>
      obtain ⟨rfl, rfl⟩ := List.cons.inj hrest
      exact .inr ⟨more, hbefore, rfl⟩
  · cases more with
    | nil =>
      obtain ⟨rfl, rfl⟩ := List.cons.inj hrest
      exact .inl ⟨by simpa using hmore.symm, rfl, rfl⟩
    | cons next more =>
      obtain ⟨rfl, -⟩ := List.cons.inj hrest
      refine absurd ?_ (not_mem_unmarked hline hblanks)
      rw [hmore]
      simp

/-- A solid line of spaced lines stands behind spaced blank lines, and spacing starts afresh behind
it. `written` are lines further in front. -/
theorem eq_of_respaceFrom {above : Above} {blanks : List Text}
    {written ls before after : List ScannedLine} {line : ScannedLine}
    (hblanks : ∀ t ∈ blanks, isBlankLine t = true) (hline : line.isSolid = true)
    (habove : above.Of written)
    (h : respaceFrom above blanks ls = before ++ line :: after) :
    ∃ reached front waiting rest, reached.Of front ∧
      written ++ before = front ++ unmarked (spacing reached waiting line) ∧
      (∀ t ∈ waiting, isBlankLine t = true) ∧ after = respaceFrom line.above [] rest := by
  -- The induction is on the lines. The blank lines seen so far are carried along, and so is what
  -- has been written.
  induction ls generalizing above blanks written before with
  | nil =>
    have hmem : line ∈ unmarked (kept above blanks) := by
      rw [← respaceFrom, h]
      simp
    exact absurd hmem (not_mem_unmarked hline fun t ht => hblanks t (mem_of_mem_kept ht))
  | cons first ls ih =>
    rw [respaceFrom] at h
    split at h
    · next hfirst =>
      rcases split_behind_blanks (isBlankLine_of_mem_spacing above hblanks first) hline h with
        ⟨rfl, rfl, rfl⟩ | ⟨more, rfl, hmore⟩
      · exact ⟨above, written, blanks, ls, habove, rfl, hblanks, rfl⟩
      · -- The line comes behind the first one, which stands on top of what is written.
        have hnext : first.above.Of (written ++ unmarked (spacing above blanks first) ++ [first]) :=
          .inr ⟨_, first, rfl, hfirst, rfl⟩
        have hrest := ih (by simp) hnext hmore
        rwa [List.append_assoc, List.append_assoc] at hrest
    · next hfirst =>
      obtain ⟨-, hblank⟩ := isBlankLine_of_not_isSolid (Bool.eq_false_iff.mpr hfirst)
      exact ih (List.forall_mem_append.mpr ⟨hblanks, List.forall_mem_singleton.mpr hblank⟩) habove h

/-- A solid line among the lines of a spaced file stands behind spaced blank lines, and behind lines
that `above` describes. -/
theorem exists_spacing {ls before after : List ScannedLine} {line : ScannedLine}
    (h : respace ls = before ++ line :: after) (hline : line.isSolid = true) :
    ∃ reached front waiting rest, reached.Of front ∧
      before = front ++ unmarked (spacing reached waiting line) ∧
      (∀ t ∈ waiting, isBlankLine t = true) ∧ after = respaceFrom line.above [] rest :=
  have hstart : Above.start.Of [] := .inl ⟨rfl, rfl⟩
  eq_of_respaceFrom (by simp) hline hstart h

/-- Behind a class line, what `respaceFrom` gives begins with a solid line, or with two blank ones
in front of a definition at the margin. -/
theorem respaceFrom_classLine (blanks : List Text) (ls : List ScannedLine) :
    respaceFrom .classLine blanks ls = [] ∨
      ∃ line rest, line.isSolid = true ∧
        (respaceFrom .classLine blanks ls = line :: rest ∨
          wanted? .classLine line = some 2 ∧
            respaceFrom .classLine blanks ls = unmarked [[], []] ++ line :: rest) := by
  induction ls generalizing blanks with
  | nil => exact .inl rfl
  | cons line ls ih =>
    rw [respaceFrom]
    -- Only a solid line ends the blank ones, and behind a class line it wants two of them or none.
    split
    · next hline =>
      refine .inr ⟨line, respaceFrom line.above [] ls, hline, ?_⟩
      rw [spacing]
      cases hwanted : wanted? .classLine line with
      | none => exact .inl rfl
      | some count =>
        have hcount : count = 2 :=
          (of_wanted? hwanted).2.2.elim And.left fun hnested => absurd rfl hnested.2
        subst hcount
        exact .inr ⟨rfl, rfl⟩
    · exact ih _

/-- What stands in front of a line outside docstrings is not blank if it `isSolid`: only a line with
quotes leads out of a docstring. -/
theorem not_blank_of_agrees {inside : Bool} {front : List ScannedLine} {top line : ScannedLine}
    {after : List ScannedLine} (h : Agrees inside (front ++ top :: line :: after))
    (htop : top.isSolid = true) (hline : line.inDocstring = false) :
    isBlankLine top.text = false := by
  obtain ⟨htopflag, hbehind⟩ := (agrees_cons _ _ _).mp ((agrees_append inside front _).mp h).2
  obtain ⟨hlineflag, -⟩ := (agrees_cons _ _ _).mp hbehind
  rw [Bool.eq_false_iff]
  intro hblank
  rw [tripleQuotes_of_isBlankLine hblank, bne_bare, hline, Bool.or_eq_false_iff] at hlineflag
  rw [tripleQuotes_of_isBlankLine hblank, hlineflag.1] at htopflag
  simp [ScannedLine.isSolid, hblank, ← htopflag] at htop

/-- A line that wants blank lines in front of it has them behind `respace`, or is the first line. -/
theorem endsBlank_of_wanted? {reached : Above} {front : List ScannedLine} {waiting : List Text}
    {line : ScannedLine} {after : List ScannedLine} {count : Nat} (hreached : reached.Of front)
    (hwaiting : ∀ t ∈ waiting, isBlankLine t = true) (hmark : line.inDocstring = false)
    (hagrees : Agrees false (front ++ unmarked (spacing reached waiting line) ++ line :: after))
    (hwanted : wanted? reached line = some count) :
    front ++ unmarked (spacing reached waiting line) = [] ∨
      EndsBlank count (front ++ unmarked (spacing reached waiting line)) := by
  have hblanks := isBlankLine_of_mem_spacing reached hwaiting line
  rw [spacing, hwanted] at hagrees hblanks ⊢
  simp only at hagrees hblanks ⊢
  -- At the start nothing has been written, so there is nothing to be apart from.
  split at hagrees
  · next hstart =>
    rw [if_pos hstart]
    rcases hreached with ⟨rfl, -⟩ | ⟨-, top, -, -, habove⟩
    · exact .inl rfl
    · exact absurd (habove.symm.trans hstart.1) top.above_ne_start
  · next hstart =>
    rw [if_neg hstart] at hblanks ⊢
    refine .inr ⟨front, _, rfl, length_resized _ _, hblanks, fun top htop => ?_⟩
    rcases hreached with ⟨rfl, -⟩ | ⟨init, last, rfl, hsolid, -⟩
    -- A line above is one that is written, and the second pass would not have left it blank.
    · cases htop
    · rw [List.getLast?_concat, Option.mem_some_iff] at htop
      subst htop
      rw [List.append_assoc, List.append_assoc, List.singleton_append] at hagrees
      cases hresized : resized count (kept reached waiting) with
      | nil =>
        rw [hresized] at hagrees
        exact not_blank_of_agrees hagrees hsolid hmark
      | cons next more =>
        rw [hresized] at hagrees
        have hbare : (ScannedLine.mk next false).inDocstring = false := rfl
        exact not_blank_of_agrees hagrees hsolid hbare

section

variable {ls before after : List ScannedLine} {line : ScannedLine}

/-- A definition at the margin has behind `respace` two blank lines in front of it, or is the first
line. -/
theorem respace_margin (h : Agrees false ls) (heq : respace ls = before ++ line :: after)
    (hmark : line.inDocstring = false) (hdefinition : isDefinition line.text = true)
    (hmargin : startsWith line.text " " = false) : before = [] ∨ EndsBlank 2 before := by
  obtain ⟨reached, front, waiting, -, hreached, hbefore, hwaiting, -⟩ :=
    exists_spacing heq (isSolid_of_isDefinition hdefinition)
  have hagrees := agrees_respace h
  rw [heq, hbefore] at hagrees
  rw [hbefore]
  exact endsBlank_of_wanted? hreached hwaiting hmark hagrees
    (wanted?_margin reached line hmark hdefinition hmargin)

/-- A definition further in has behind `respace` one blank line in front of it, or stands behind a
class line, or is the first line. -/
theorem respace_nested (h : Agrees false ls) (heq : respace ls = before ++ line :: after)
    (hmark : line.inDocstring = false) (hdefinition : isDefinition line.text = true)
    (hmargin : startsWith line.text " " = true) :
    before = [] ∨
      (∃ front top, before = front ++ [top] ∧ top.inDocstring = false ∧
        isClassLine top.text = true) ∨
      EndsBlank 1 before := by
  obtain ⟨reached, front, waiting, -, hreached, hbefore, hwaiting, -⟩ :=
    exists_spacing heq (isSolid_of_isDefinition hdefinition)
  have hwanted := wanted?_nested reached line hmark hdefinition hmargin
  have hagrees := agrees_respace h
  rw [heq, hbefore] at hagrees
  rw [hbefore]
  split at hwanted
  · next hclass =>
    -- Behind a class line the blank lines are dropped.
    have hspacing : spacing reached waiting line = [] := by
      rw [spacing, hwanted, hclass]
      rfl
    rw [hspacing]
    rcases hreached with ⟨-, hstart⟩ | ⟨init, top, rfl, -, habove⟩
    · rw [hclass] at hstart
      cases hstart
    · obtain ⟨htopmark, htop⟩ := ScannedLine.above_eq_classLine_iff.mp (habove.symm.trans hclass)
      exact .inr (.inl ⟨init, top, List.append_nil _, htopmark, htop⟩)
  · exact (endsBlank_of_wanted? hreached hwaiting hmark hagrees hwanted).imp_right .inr

/-- Blank lines stand behind `respace` after a class line only in front of a definition at the
margin. -/
theorem respace_behindClass {blank : ScannedLine}
    (heq : respace ls = before ++ line :: blank :: after) (hmark : line.inDocstring = false)
    (hclass : isClassLine line.text = true)
    (hblankmark : blank.inDocstring = false) (hblank : isBlankLine blank.text = true) :
    ∃ blanks next rest, after = unmarked blanks ++ next :: rest ∧
      (∀ t ∈ blanks, isBlankLine t = true) ∧ next.inDocstring = false ∧
      isDefinition next.text = true ∧ startsWith next.text " " = false := by
  obtain ⟨-, -, -, rest, -, -, -, hafter⟩ := exists_spacing heq (isSolid_of_isClassLine hclass)
  have habove : line.above = .classLine := by simp [ScannedLine.above, hmark, hclass]
  rw [habove] at hafter
  -- Of the three ways to go on behind a class line, two have no blank line right behind it.
  rcases respaceFrom_classLine [] rest with hnil | ⟨next, more, hnext, heq' | ⟨hwanted, heq'⟩⟩
  · rw [hnil] at hafter
    cases hafter
  · -- The line behind is solid, and not the blank one.
    rw [heq'] at hafter
    obtain ⟨rfl, -⟩ := List.cons.inj hafter
    simp [ScannedLine.isSolid, hblankmark, hblank] at hnext
  · rw [heq'] at hafter
    obtain ⟨-, rfl⟩ := List.cons.inj hafter
    obtain ⟨hnextmark, hdefinition, ⟨-, hmargin⟩ | ⟨hcount, -⟩⟩ := of_wanted? hwanted
    · exact ⟨[[]], next, more, rfl, List.forall_mem_singleton.mpr rfl, hnextmark, hdefinition,
        hmargin⟩
    · cases hcount

/-- Spaced lines are `WellSpaced`, one field for each of the three lemmas above. -/
theorem wellSpaced_respace (h : Agrees false ls) : WellSpaced (respace ls) where
  margin _ _ _ := respace_margin h
  nested _ _ _ := respace_nested h
  behindClass _ _ _ _ := respace_behindClass

end

/-! ### Texts -/

/-- The lines of a `respaced` text are those that the first pass gives. -/
theorem lines_respaced (code : Text) : lines (respaced code) = normalizeBlankLines (lines code) :=
  lines_unlines (normalizeBlankLines_ne_nil (splitOn_ne_nil '\n' code))
    (oneLine_of_mem_normalizeBlankLines fun _ => oneLine_of_mem_lines)

/-- Every text is `WellSpaced` once its blank lines are put right, and putting them right again
changes nothing. -/
theorem wellSpaced_scan_respaced (code : Text) :
    WellSpaced (scan (lines (respaced code))) ∧ respaced (respaced code) = respaced code := by
  rw [lines_respaced, scan_normalizeBlankLines]
  refine ⟨wellSpaced_respace (agrees_scan _), ?_⟩
  · rw [respaced, lines_respaced, normalizeBlankLines_eq (normalizeBlankLines _),
      scan_normalizeBlankLines, respace_respace, ← normalizeBlankLines_eq, respaced]

end TypedOps.Layout
