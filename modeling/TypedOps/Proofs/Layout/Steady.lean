import Mathlib.Data.List.Chain
import TypedOps.Proofs.Layout.Reflow

/-!
# `TypedOps.Proofs.Layout.Steady`: laying out code again

Laying out twice is spacing, wrapping, spacing and wrapping. Each pass does its work at once
(`respace_respace`, `rewrap_rewrap`), so the second layout changes nothing where the two passes
commute. They need not: an argument on a line of its own may read like a definition, and spacing
then puts blank lines in front of it.

A line is `Steady` when nothing of the kind happens to it. `respaceFrom_formatted` is the step:
what a steady line is wrapped into is spaced as the line is. Its first line opens what the line
opens, and the others open nothing. `format_format` follows for every text whose code is steady.

Two keywords open something, and white space stands behind each. So a line is steady as soon as
no white space in its list stands behind the last letter of one (`KeywordFree`); or it cannot be
wrapped at all. `Tame` collects these reasons, which are read off the line.
-/

set_option autoImplicit false

namespace TypedOps.Layout

open Text

/-! ### Steady lines -/

/-- A line that is neither blank nor a definition nor a class line, so that `respace` wants no blank
lines in front of it. -/
def Inert (line : Text) : Prop :=
  isBlankLine line = false ∧ isDefinition line = false ∧ isClassLine line = false

/-- A line that keeps its place among blank lines when it is wrapped: what it `Unfolds` to opens
nothing that it does not open itself. -/
structure Steady (line : Text) : Prop where
  /-- The line is no class line, and it is not wrapped into one. -/
  notClass : ∀ u, Unfolds line u → isClassLine line = false ∧ isClassLine u.opening = false
  /-- The items that it is wrapped into open nothing. -/
  items : ∀ u, Unfolds line u → ∀ item ∈ splitArguments u.list, Inert (u.itemLine item)

/-! ### The opening of a wrapped line -/

/-- The word `def` in front of a name opens a function. -/
theorem isDefinition_def {indent gap name rest : Text} (hindent : ∀ c ∈ indent, isBlank c = true)
    (hgap : gap ≠ [] ∧ ∀ c ∈ gap, isBlank c = true)
    (hname : name ≠ [] ∧ ∀ c ∈ name, isWord c = true)
    (hfirst : ∀ c ∈ name.head?, isBlank c = false)
    (hlast : ∀ c ∈ (("def" : Text) ++ (gap ++ (name ++ rest))).getLast?, isBlank c = false) :
    isDefinition (indent ++ ("def" ++ (gap ++ (name ++ rest)))) = true := by
  obtain ⟨c, name, rfl⟩ := List.exists_cons_of_ne_nil hname.1
  obtain ⟨g, gap', rfl⟩ := List.exists_cons_of_ne_nil hgap.1
  have hstrip := strip_append hindent (by simp; decide) hlast
  have hbehind : (g :: gap' ++ (c :: name ++ rest)).dropWhile isBlank = c :: name ++ rest :=
    dropWhile_blank_append hgap.2 (by simpa using hfirst)
  have hstarts : startsName (g :: gap' ++ (c :: name ++ rest)) = true := by
    show (isBlank g &&
      ((g :: gap' ++ (c :: name ++ rest)).dropWhile isBlank).head?.any isWord) = true
    rw [hbehind, hgap.2 g List.mem_cons_self]
    exact hname.2 c List.mem_cons_self
  rw [isDefinition, hstrip]
  simp only [afterStart?_append, Option.any_some, hstarts, Bool.or_true]

/-- If a text begins with a word in front of white space, that is by `isBlank`, and also with a
target in front of an equals sign, the word is the target. -/
theorem eq_of_keyword_append {word target gap rest behind : Text} {b : Char}
    (hword : ∀ c ∈ word, isBlank c = false ∧ c ≠ '=') (hb : isBlank b = true)
    (htarget : ∀ c ∈ target, isBlank c = false) (hgap : ∀ c ∈ gap, isBlank c = true)
    (h : word ++ b :: behind = target ++ (gap ++ '=' :: rest)) :
    word = target ∧ b :: behind = gap ++ '=' :: rest := by
  rcases List.append_eq_append_iff.mp h with ⟨more, htail, hmore⟩ | ⟨more, htail, hmore⟩
  · cases more with
    | nil => exact ⟨by simpa using htail.symm, hmore⟩
    | cons c more =>
      -- The white space would stand in the target.
      obtain ⟨rfl, -⟩ := List.cons.inj hmore
      have hc := htarget b (by simp [htail])
      rw [hb] at hc
      cases hc
  · cases more with
    | nil => exact ⟨by simpa using htail, by simpa using hmore.symm⟩
    | cons c more =>
      -- The gap or the equals sign would stand in the word.
      have hc := hword c (by simp [htail])
      cases gap with
      | nil =>
        obtain ⟨rfl, -⟩ := List.cons.inj hmore
        exact absurd rfl hc.2
      | cons g gap =>
        obtain ⟨rfl, -⟩ := List.cons.inj hmore
        rw [hgap g List.mem_cons_self] at hc
        cases hc.1

section

variable {indent target gap rest : Text}

/-- What is left by `strip` of an assignment begins with its target. -/
theorem strip_assignment (hindent : ∀ c ∈ indent, isBlank c = true)
    (htarget : target ≠ [] ∧ ∀ c ∈ target, isBlank c = false)
    (hlast : ∀ c ∈ (target ++ (gap ++ '=' :: rest)).getLast?, isBlank c = false) :
    strip (indent ++ (target ++ (gap ++ '=' :: rest))) = target ++ (gap ++ '=' :: rest) := by
  obtain ⟨c, target, rfl⟩ := List.exists_cons_of_ne_nil htarget.1
  exact strip_append hindent (by simpa using htarget.2 c List.mem_cons_self) hlast

/-- An assignment is none that `isDefinition` accepts, whatever its target is. -/
theorem isDefinition_assignment (hindent : ∀ c ∈ indent, isBlank c = true)
    (htarget : target ≠ [] ∧ ∀ c ∈ target, isBlank c = false) (hgap : ∀ c ∈ gap, isBlank c = true)
    (hlast : ∀ c ∈ (target ++ (gap ++ '=' :: rest)).getLast?, isBlank c = false) :
    isDefinition (indent ++ (target ++ (gap ++ '=' :: rest))) = false := by
  have hword : ∀ word : Text, (∀ c ∈ word, isBlank c = false ∧ c ≠ '=') →
      (afterStart? word (target ++ (gap ++ '=' :: rest))).any startsName = false := by
    intro word hword
    cases hafter : afterStart? word (target ++ (gap ++ '=' :: rest)) with
    | none => rfl
    | some behind =>
      rw [Option.any_some, Bool.eq_false_iff]
      intro hstarts
      cases behind with
      | nil => cases hstarts
      | cons b behind =>
        -- Behind the word would stand a name, and there stands an equals sign.
        simp only [startsName, Bool.and_eq_true] at hstarts
        obtain ⟨-, hbehind⟩ := eq_of_keyword_append hword hstarts.1 htarget.2 hgap
          (eq_append_of_afterStart? hafter).symm
        rw [hbehind, dropWhile_blank_append hgap (by simp; decide)] at hstarts
        have hequals : isWord '=' = true := hstarts.2
        exact absurd hequals (by decide)
  rw [isDefinition, strip_assignment hindent htarget hlast, hword "class" (by decide),
    hword "def" (by decide)]
  rfl

/-- An assignment reads like a class only if it is to the word `class`. -/
theorem isClassLine_assignment (hindent : ∀ c ∈ indent, isBlank c = true)
    (htarget : target ≠ [] ∧ ∀ c ∈ target, isBlank c = false) (hgap : ∀ c ∈ gap, isBlank c = true)
    (hlast : ∀ c ∈ (target ++ (gap ++ '=' :: rest)).getLast?, isBlank c = false)
    (hclass : target ≠ "class".toList) :
    isClassLine (indent ++ (target ++ (gap ++ '=' :: rest))) = false := by
  rw [isClassLine, strip_assignment hindent htarget hlast, Bool.eq_false_iff]
  intro hstarts
  obtain ⟨behind, hbehind⟩ := Option.isSome_iff_exists.mp hstarts
  have hword : ("class" : Text) ++ ' ' :: behind = target ++ (gap ++ '=' :: rest) :=
    (eq_append_of_afterStart? hbehind).symm
  exact hclass (eq_of_keyword_append (by decide) (by decide) htarget.2 hgap hword).1.symm

end

/-- The first word of a line, up to white space or an equals sign. It decides whether the line has
`isDefinition` or `isClassLine`. -/
def leadingWord (line : Text) : Text :=
  (line.dropWhile isBlank).takeWhile fun c => !isBlank c && c != '='

/-- The first word of a line that reads like a class is `class`. -/
theorem leadingWord_class {indent gap rest : Text} (hindent : ∀ c ∈ indent, isBlank c = true)
    (hgap : ∀ c ∈ gap, isBlank c = true) :
    leadingWord (indent ++ ("class".toList ++ (gap ++ '=' :: rest))) = "class".toList := by
  have hbehind : (gap ++ '=' :: rest).takeWhile (fun c => !isBlank c && c != '=') = [] := by
    cases gap with
    | nil => rfl
    | cons g gap => exact List.takeWhile_cons_of_neg (by simp [hgap g List.mem_cons_self])
  rw [leadingWord, dropWhile_blank_append hindent (by simp; decide),
    List.takeWhile_append_of_pos (by decide), hbehind, List.append_nil]

/-- The `leadingWord` of an assignment with blanks around the equals sign is the target. -/
theorem leadingWord_assignment {target : Text} (htarget : ∀ c ∈ target, isBlank c = false ∧ c ≠ '=')
    (rest : Text) : leadingWord (target ++ (" = " ++ rest)) = target := by
  cases target with
  | nil => rfl
  | cons c target =>
    have hword : ∀ d ∈ c :: target, (!isBlank d && d != '=') = true := fun d hd => by
      simpa using htarget d hd
    have hfirst : isBlank c = false := (htarget c List.mem_cons_self).1
    rw [leadingWord, List.cons_append, List.dropWhile_cons_of_neg (by simp [hfirst]),
      ← List.cons_append, List.takeWhile_append_of_pos hword]
    exact List.append_nil _

/-- A line that begins with another letter does not begin with the word `class`. -/
theorem leadingWord_ne_class {c : Char} {t : Text} (h : t.head? = some c) (hc : c ≠ 'c')
    (hblank : isBlank c = false) : leadingWord t ≠ "class".toList := by
  cases t with
  | nil => cases h
  | cons d t =>
    cases h
    rw [leadingWord, List.dropWhile_cons_of_neg (by simp [hblank]), List.takeWhile_cons]
    split
    · intro heq
      exact hc (List.cons.inj heq).1
    · simp

namespace Unfolds

variable {line : Text} {u : Unfolding}

/-- The `opening` that a long line is taken apart into is a definition just when the long line is.
-/
theorem isDefinition_opening (h : Unfolds line u) :
    isDefinition u.opening = isDefinition line := by
  cases h with
  | @definition indent gap name params result shape hindent hgap hname hfirst =>
    -- The gap behind the keyword becomes a blank, and what makes a line a definition stands in
    -- front of the bracket.
    have hopening : indent ++ (("def " ++ name) ++ ['(']) =
        indent ++ (("def" : Text) ++ ([' '] ++ (name ++ ['(']))) := by simp
    rw [Unfolding.opening, hopening, shape,
      isDefinition_def hindent ⟨by simp, by decide⟩ hname hfirst,
      isDefinition_def hindent hgap hname hfirst]
    all_goals
      simp only [← List.append_assoc, ← List.cons_append, List.getLast?_concat]
      simp
      decide
  | @assignment indent target gap space callee arguments shape hindent htarget hgap =>
    -- Around the equals sign white space becomes one blank. The first word is the same.
    have hopening : indent ++ ((target ++ (" = " ++ callee)) ++ ['(']) =
        indent ++ (target ++ ([' '] ++ '=' :: (' ' :: callee ++ ['(']))) := by simp
    rw [Unfolding.opening, hopening, shape,
      isDefinition_assignment hindent htarget (by decide),
      isDefinition_assignment hindent htarget hgap]
    all_goals
      simp only [← List.append_assoc, ← List.cons_append, List.getLast?_concat]
      simp
      decide

/-- A line does not read like a class and neither does its opening, unless the line assigns to the
word `class`. -/
theorem isClassLine_eq_false (h : Unfolds line u) (hword : leadingWord line ≠ "class".toList) :
    isClassLine line = false ∧ isClassLine u.opening = false := by
  cases h with
  | @definition indent gap name params result shape hindent =>
    -- Both begin with another letter.
    have hdef : ∀ t : Text, isClassLine (indent ++ 'd' :: t) = false := by
      intro t
      obtain ⟨rest, hrest⟩ := exists_strip_eq hindent (by decide : isBlank 'd' = false) t
      simp [isClassLine, hrest, startsWith, afterStart?]
    rw [shape]
    exact ⟨hdef _, hdef _⟩
  | @assignment indent target gap space callee arguments shape hindent htarget hgap =>
    have hopening : indent ++ ((target ++ (" = " ++ callee)) ++ ['(']) =
        indent ++ (target ++ ([' '] ++ '=' :: (' ' :: callee ++ ['(']))) := by simp
    have hclass : target ≠ "class".toList := by
      rintro rfl
      exact hword (shape ▸ leadingWord_class hindent hgap)
    rw [Unfolding.opening, hopening, shape]
    refine ⟨isClassLine_assignment hindent htarget hgap ?_ hclass,
      isClassLine_assignment hindent htarget (by decide) ?_ hclass⟩
    all_goals
      simp only [← List.append_assoc, ← List.cons_append, List.getLast?_concat]
      simp
      decide

/-- A line and its `opening` both begin at the margin, or neither does. -/
theorem startsWith_opening (h : Unfolds line u) :
    startsWith u.opening " " = startsWith line " " := by
  obtain ⟨c, front, behind, hline, hopening⟩ : ∃ c front behind,
      line = c :: front ∧ u.opening = c :: behind := by
    -- The opening keeps the indentation, and without any, the first letter of the keyword or of the
    -- target.
    cases h with
    | @definition indent _ _ _ _ shape =>
      cases indent with
      | nil => exact ⟨_, _, _, shape, rfl⟩
      | cons _ _ => exact ⟨_, _, _, shape, rfl⟩
    | @assignment indent target _ _ _ _ shape _ htarget =>
      obtain ⟨c, target, rfl⟩ := List.exists_cons_of_ne_nil htarget.1
      cases indent with
      | nil => exact ⟨_, _, _, shape, rfl⟩
      | cons _ _ => exact ⟨_, _, _, shape, rfl⟩
  rw [hline, hopening]
  by_cases hc : ' ' = c
  · subst hc
    rfl
  · simp [startsWith, afterStart?, hc]

/-- The `closing` line of what a long line is taken apart into opens nothing. -/
theorem inert_closing (h : Unfolds line u) : Inert u.closing := by
  obtain ⟨rest, hrest⟩ := exists_strip_eq h.blank_indent (by decide : isBlank ')' = false) u.tail
  exact settles_of_strip hrest (by decide) (by decide)

end Unfolds

/-! ### The passes commute -/

/-- Lines that open nothing are left by `respaceFrom` behind another line as they are, with no blank
lines between. -/
theorem respaceFrom_inert_append {ls : List Text} (h : ∀ t ∈ ls, Inert t) (ms : List ScannedLine) :
    respaceFrom .other [] (unmarked ls ++ ms) = unmarked ls ++ respaceFrom .other [] ms := by
  induction ls with
  | nil => rfl
  | cons line ls ih =>
    obtain ⟨⟨hblank, hdefinition, hclass⟩, hrest⟩ := List.forall_mem_cons.mp h
    have hspacing : spacing .other [] ⟨line, false⟩ = [] := by
      simp [spacing, wanted?, hdefinition, kept]
    have habove : (ScannedLine.mk line false).above = .other := by
      simp [ScannedLine.above, hclass]
    show respaceFrom .other [] (⟨line, false⟩ :: (unmarked ls ++ ms)) = _
    rw [respaceFrom, if_pos (by simp [hblank]), hspacing, habove, ih hrest]
    rfl

/-- What a `Steady` line is wrapped into is spaced as the line is. -/
theorem respaceFrom_formatted {line : ScannedLine} (above : Above) (blanks : List Text)
    (hone : OneLine line.text) (hsolid : line.isSolid = true)
    (hsteady : line.inDocstring = false → Steady line.text) (ls : List ScannedLine) :
    respaceFrom above blanks (line.formatted ++ ls) =
      unmarked (spacing above blanks line) ++ (line.formatted ++ respaceFrom line.above [] ls) := by
  have hsame : line.formatted = [line] → respaceFrom above blanks (line.formatted ++ ls) =
      unmarked (spacing above blanks line) ++ (line.formatted ++ respaceFrom line.above [] ls) := by
    intro heq
    rw [heq, List.singleton_append, respaceFrom, if_pos hsolid]
    rfl
  rcases formatted_cases line with ⟨-, heq⟩ | ⟨-, heq⟩ | ⟨text, rfl, -, heq⟩
  · exact hsame heq
  · exact hsame heq
  · rcases wrapLine_cases hone with hwrap | ⟨u, hu, hwrap⟩
    · refine hsame ?_
      rw [heq, hwrap]
      rfl
    -- The opening is spaced as the line is. The items and the closing bracket are inert, so nothing
    -- is put in front of them.
    · have hclass := (hsteady rfl).notClass u hu
      have hblank : isBlankLine u.opening = false :=
        Unfolds.not_blank_of_mem_lines (u := u) List.mem_cons_self
      have hspacing : spacing above blanks ⟨u.opening, false⟩ =
          spacing above blanks ⟨text, false⟩ := by
        simp only [spacing, wanted?, hu.isDefinition_opening, hu.startsWith_opening]
      have habove : (ScannedLine.mk u.opening false).above = .other ∧
          (ScannedLine.mk text false).above = .other := by
        simp [ScannedLine.above, hclass]
      have hinert : ∀ t ∈ (splitArguments u.list).map u.itemLine ++ [u.closing], Inert t := by
        refine List.forall_mem_append.mpr ⟨?_, List.forall_mem_singleton.mpr hu.inert_closing⟩
        intro t ht
        obtain ⟨item, hitem, rfl⟩ := List.mem_map.mp ht
        exact (hsteady rfl).items u hu item hitem
      rw [heq, hwrap]
      show respaceFrom above blanks (⟨u.opening, false⟩ :: (unmarked _ ++ ls)) = _
      rw [respaceFrom, if_pos (by simp [hblank]), hspacing, habove.1, habove.2,
        respaceFrom_inert_append hinert]
      rfl

/-- Spacing wrapped lines is wrapping spaced ones, if all lines of code are `Steady`. -/
theorem respaceFrom_rewrap (above : Above) {blanks : List Text} {ls : List ScannedLine}
    (hblanks : ∀ t ∈ blanks, isBlankLine t = true) (hone : ∀ t ∈ blanks, OneLine t)
    (hls : ∀ line ∈ ls, OneLine line.text)
    (hsteady : ∀ line ∈ ls, line.inDocstring = false → Steady line.text) :
    respaceFrom above blanks (rewrap ls) = rewrap (respaceFrom above blanks ls) := by
  induction ls generalizing above blanks with
  | nil =>
    rw [respaceFrom, rewrap_unmarked (fun t ht => hblanks t (mem_of_mem_kept ht))
      fun t ht => hone t (mem_of_mem_kept ht)]
    rfl
  | cons line ls ih =>
    obtain ⟨hline, hlater⟩ := List.forall_mem_cons.mp hls
    obtain ⟨hfirst, hrest⟩ := List.forall_mem_cons.mp hsteady
    rw [rewrap_cons]
    cases hsolid : line.isSolid with
    -- A solid line is spaced and formatted, in whichever order. A blank one waits on both sides.
    | true =>
      have hspacing := isBlankLine_of_mem_spacing above hblanks line
      rw [respaceFrom_formatted above blanks hline hsolid hfirst, ih line.above (by simp) (by simp)
        hlater hrest, respaceFrom, if_pos hsolid, rewrap_append, rewrap_cons,
        rewrap_unmarked hspacing (oneLine_of_mem_spacing hone)]
    | false =>
      obtain ⟨-, hblank⟩ := isBlankLine_of_not_isSolid hsolid
      rw [formatted_of_isBlankLine hline hblank, respaceFrom, if_neg (by simp [hsolid]),
        List.singleton_append, respaceFrom, if_neg (by simp [hsolid])]
      exact ih above (List.forall_mem_append.mpr ⟨hblanks, List.forall_mem_singleton.mpr hblank⟩)
        (List.forall_mem_append.mpr ⟨hone, List.forall_mem_singleton.mpr hline⟩) hlater hrest

/-- To `rewrap` lines again changes nothing. -/
theorem rewrap_rewrap {ls : List ScannedLine} (hone : ∀ line ∈ ls, OneLine line.text) :
    rewrap (rewrap ls) = rewrap ls := by
  refine rewrap_eq_self fun part hpart => ?_
  obtain ⟨line, hline, hmem⟩ := List.mem_flatMap.mp hpart
  rcases formatted_cases line with ⟨hmark, heq⟩ | ⟨hshort, heq⟩ | ⟨text, rfl, -, heq⟩
  · rw [heq, List.mem_singleton] at hmem
    rw [hmem, heq]
  · rw [heq, List.mem_singleton] at hmem
    rw [hmem, heq]
  · rw [heq] at hmem
    obtain ⟨t, ht, rfl⟩ := List.mem_map.mp hmem
    exact formatted_of_wrapLine (wrapLine_of_mem_wrapLine (hone _ hline) ht)

/-- An empty line is `Steady`: there is no bracket in it. -/
theorem steady_nil : Steady [] := by
  have hnone : ∀ u, ¬Unfolds [] u := by
    intro u hu
    obtain ⟨front, hfront⟩ := hu.exists_eq_append
    simp at hfront
  exact ⟨fun u hu => absurd hu (hnone u), fun u hu => absurd hu (hnone u)⟩

/-- Laying out a text again changes nothing if its code is `Steady`, because the two passes commute
and each is idempotent. -/
theorem format_format {code : Text}
    (h : ∀ line ∈ scan (lines code), line.inDocstring = false → Steady line.text) :
    format (format code) = format code := by
  have hone : ∀ line ∈ scan (lines code), OneLine line.text := fun _ hline =>
    oneLine_of_mem_lines (text_mem_of_mem_scan hline)
  -- Spacing adds empty lines at most.
  have hspaced : ∀ line ∈ respace (scan (lines code)),
      OneLine line.text ∧ (line.inDocstring = false → Steady line.text) := by
    intro line hline
    rcases mem_respaceFrom hline with hline | ⟨-, hempty | hempty⟩
    · exact ⟨hone line hline, h line hline⟩
    · cases hempty
    · rw [hempty]
      exact ⟨by decide, fun _ => steady_nil⟩
  have hpasses : rewrap (respace (rewrap (respace (scan (lines code))))) =
      rewrap (respace (scan (lines code))) := by
    calc
      _ = rewrap (rewrap (respace (respace (scan (lines code))))) := by
        rw [respace, respaceFrom_rewrap .start (by simp) (by simp) (fun l hl => (hspaced l hl).1)
          fun l hl => (hspaced l hl).2]
        rfl
      _ = rewrap (rewrap (respace (scan (lines code)))) := by rw [respace_respace]
      _ = rewrap (respace (scan (lines code))) := rewrap_rewrap fun l hl => (hspaced l hl).1
  have hlines : ∀ t, unlines ((scan (lines t)).map ScannedLine.text) = t := fun t => by
    rw [scan, map_text_scanFrom, unlines_lines]
  rw [← hlines (format (format code)), scan_lines_format, scan_lines_format, hpasses,
    ← scan_lines_format, hlines]

/-- An argument that reads like a definition is not steady. -/
example :
    let code : Text :=
      "value = call(first_argument_of_the_call, second_argument_of_the_call, def third_argument)"
    format (format code) ≠ format code := by
  decide +kernel

/-! ### Lines that are steady -/

/-- A text in which no white space stands behind the last letter of `class` or `def`. -/
def KeywordFree (t : Text) : Prop := t.IsChain fun c b => isBlank b = true → c ≠ 's' ∧ c ≠ 'f'

instance (t : Text) : Decidable (KeywordFree t) :=
  inferInstanceAs (Decidable (t.IsChain fun c b => isBlank b = true → c ≠ 's' ∧ c ≠ 'f'))

/-- Two texts are `KeywordFree` together if the second does not begin with white space. -/
theorem keywordFree_append {s t : Text} (hs : KeywordFree s) (ht : KeywordFree t)
    (hfirst : ∀ b ∈ t.head?, isBlank b = false) : KeywordFree (s ++ t) := by
  refine hs.append ht fun c _ b hb hblank => ?_
  rw [hfirst b hb] at hblank
  cases hblank

/-- A text without white space, in the sense of `isBlank`. -/
def Unspaced (t : Text) : Prop := ∀ c ∈ t, isBlank c = false

instance (t : Text) : Decidable (Unspaced t) :=
  inferInstanceAs (Decidable (∀ c ∈ t, isBlank c = false))

/-- A text that is `KeywordFree` behind any other: white space does not come first. -/
structure Compact (t : Text) : Prop where
  free : KeywordFree t
  first : ∀ b ∈ t.head?, isBlank b = false

instance (t : Text) : Decidable (Compact t) :=
  decidable_of_iff (KeywordFree t ∧ t.head?.all (fun b => !isBlank b)) (by
    cases t with
    | nil => exact ⟨fun h => ⟨h.1, by simp⟩, fun h => ⟨h.free, rfl⟩⟩
    | cons c t =>
      exact ⟨fun h => ⟨h.1, by simpa using h.2⟩, fun h => ⟨h.free, by simpa using h.first⟩⟩)

/-- Two `Compact` texts in a row are one. -/
theorem Compact.append {s t : Text} (hs : Compact s) (ht : Compact t) : Compact (s ++ t) := by
  refine ⟨keywordFree_append hs.free ht.free ht.first, ?_⟩
  cases s with
  | nil => exact ht.first
  | cons c s => exact hs.first

/-- Pieces that are `Compact`, with a comma and a blank between them, are so together. -/
theorem compact_join {pieces : List Text} (h : ∀ piece ∈ pieces, Compact piece) :
    Compact (join ", " pieces) := by
  induction pieces with
  | nil => exact ⟨by decide, by simp [join]⟩
  | cons piece pieces ih =>
    obtain ⟨hpiece, hrest⟩ := List.forall_mem_cons.mp h
    cases pieces with
    | nil => exact hpiece
    | cons next rest => exact (hpiece.append (by decide : Compact ", ")).append (ih hrest)

/-- A text without white space is `Compact`. -/
theorem Unspaced.compact {t : Text} (h : Unspaced t) : Compact t := by
  refine ⟨?_, fun b hb => h b (List.mem_of_mem_head? hb)⟩
  refine List.isChain_iff_forall_rel_of_append_cons_cons.mpr fun c b front behind heq hblank => ?_
  rw [h b (by simp [heq])] at hblank
  cases hblank

/-- A line of a text that is `KeywordFree` opens nothing, at any indentation. -/
theorem inert_of_keywordFree {indent t : Text} (hindent : ∀ c ∈ indent, isBlank c = true)
    (hne : t ≠ []) (hfirst : ∀ c ∈ t.head?, isBlank c = false)
    (hlast : ∀ c ∈ t.getLast?, isBlank c = false) (h : KeywordFree t) : Inert (indent ++ t) := by
  have hstrip := strip_append hindent hfirst hlast
  -- A keyword would end in one of the letters, with white space behind it.
  have hword : ∀ (word : Text) (c : Char), (c = 's' ∨ c = 'f') → ∀ b behind,
      afterStart? (word ++ [c]) t = some (b :: behind) → isBlank b = false := by
    intro word c hc b behind hafter
    rw [eq_append_of_afterStart? hafter, List.append_assoc] at h
    rw [Bool.eq_false_iff]
    intro hblank
    have hboth := (List.isChain_append_cons_cons.mp h).2.1 hblank
    rcases hc with rfl | rfl
    · exact hboth.1 rfl
    · exact hboth.2 rfl
  have hstarts : ∀ (word : Text) (c : Char), (c = 's' ∨ c = 'f') →
      (afterStart? (word ++ [c]) t).any startsName = false := by
    intro word c hc
    cases hafter : afterStart? (word ++ [c]) t with
    | none => rfl
    | some behind =>
      cases behind with
      | nil => rfl
      | cons b behind => simp [startsName, hword word c hc b behind hafter]
  refine ⟨?_, ?_, ?_⟩
  · rw [isBlankLine, hstrip, List.isEmpty_eq_false_iff]
    exact hne
  · rw [isDefinition, hstrip]
    exact Bool.or_eq_false_iff.mpr ⟨hstarts "clas" 's' (.inl rfl), hstarts "de" 'f' (.inr rfl)⟩
  · rw [isClassLine, hstrip, Bool.eq_false_iff]
    intro hclass
    obtain ⟨behind, hbehind⟩ := Option.isSome_iff_exists.mp hclass
    have hafter : afterStart? ("clas" ++ ['s']) t = some (' ' :: behind) := by
      rw [eq_append_of_afterStart? hbehind]
      exact afterStart?_append "class" (' ' :: behind)
    exact absurd (hword "clas" 's' (.inl rfl) _ _ hafter) (by decide)

/-- Behind any separator stands an end of what stands behind the first one, so to `cut` at the first
one leaves the longest rest. -/
theorem isSuffix_behind_first {sep : Char} {front rest front' rest' : Text} (hfront : sep ∉ front)
    (h : front ++ sep :: rest = front' ++ sep :: rest') : rest' <:+ rest := by
  rcases List.append_eq_append_iff.mp h with ⟨more, -, hmore⟩ | ⟨more, hmore, hrest⟩
  · cases more with
    | nil => exact ⟨[], (List.cons.inj hmore).2.symm⟩
    | cons c more => exact ⟨more ++ [sep], by simp [(List.cons.inj hmore).2]⟩
  · cases more with
    | nil => exact ⟨[], (List.cons.inj hrest).2⟩
    | cons c more =>
      obtain ⟨rfl, -⟩ := List.cons.inj hrest
      exact absurd (by simp [hmore]) hfront

/-- What is read off a line to see that it is `Steady`, in one of three ways: it has no bracket, it
neither assigns nor defines, or there is no keyword behind its first bracket. -/
inductive Tame (line : Text) : Prop where
  /-- The line has no bracket where it could be taken apart. -/
  | bare (hbracket : '(' ∉ line)
  /-- The line neither assigns anything nor begins like a function. -/
  | statement (hequals : '=' ∉ line) (hfirst : (line.dropWhile isBlank).head? ≠ some 'd')
  /-- The line assigns to no `class`, and there is no keyword behind its first bracket. -/
  | call {front rest : Text} (hline : line = front ++ '(' :: rest) (hfront : '(' ∉ front)
      (hword : leadingWord line ≠ "class".toList) (hrest : KeywordFree rest)

/-- What stands in front of the bracket of a call, in a line that begins with another letter than
`class` does. -/
structure CallHead (front : Text) : Prop where
  bracket : '(' ∉ front
  first : front.head?.any (fun c => c != 'c' && !isBlank c) = true

instance (front : Text) : Decidable (CallHead front) :=
  decidable_of_iff ('(' ∉ front ∧ front.head?.any (fun c => c != 'c' && !isBlank c) = true)
    ⟨fun h => ⟨h.1, h.2⟩, fun h => ⟨h.bracket, h.first⟩⟩

/-- A call with a `CallHead` in front of its bracket, and compact text behind, is `Tame`. -/
theorem tame_call (front rest : Text) {line : Text} (hline : line = front ++ '(' :: rest)
    (hfront : CallHead front) (hrest : Compact rest) : Tame line := by
  obtain ⟨c, hc, hfirst⟩ := (Option.any_eq_true _ _).mp hfront.first
  have hother : c ≠ 'c' ∧ isBlank c = false := by simpa using hfirst
  refine .call hline hfront.bracket (leadingWord_ne_class ?_ hother.1 hother.2) hrest.free
  rw [hline, List.head?_append, hc]
  rfl

/-- A `Tame` line is `Steady`: the brackets at which it can be taken apart leave nothing that looks
like a keyword. -/
theorem Tame.steady {line : Text} (h : Tame line) : Steady line := by
  cases h with
  | bare hbracket =>
    -- Without a bracket there is nothing to take apart.
    have hnone : ∀ u, ¬Unfolds line u := by
      intro u hu
      obtain ⟨front, hfront⟩ := hu.exists_eq_append
      exact hbracket (by simp [hfront])
    exact ⟨fun u hu => absurd hu (hnone u), fun u hu => absurd hu (hnone u)⟩
  | statement hequals hfirst =>
    have hnone : ∀ u, ¬Unfolds line u := by
      intro u hu
      -- A definition begins with its keyword and an assignment has an equals sign.
      rcases hu.ends with ⟨-, rest, hrest⟩ | ⟨-, hmem⟩
      · exact hfirst (by rw [hrest]; rfl)
      · exact hequals hmem
    exact ⟨fun u hu => absurd hu (hnone u), fun u hu => absurd hu (hnone u)⟩
  | @call front rest hline hfront hword hrest =>
    refine ⟨fun u hu => hu.isClassLine_eq_false hword, fun u hu item hitem => ?_⟩
    obtain ⟨front', hfront'⟩ := hu.exists_eq_append
    obtain ⟨hwithin, hne, hfirst⟩ := of_mem_splitArguments hitem
    have hbehind := isSuffix_behind_first hfront (hline.symm.trans hfront')
    have hlist : u.list <:+: rest := (List.prefix_append _ _).isInfix.trans hbehind.isInfix
    have hitemFree : KeywordFree item := hrest.infix (hwithin.trans hlist)
    -- Neither half of the item holds a keyword, and the comma behind it ends the line without a
    -- colon.
    refine inert_of_keywordFree ?_ (by simp) ?_ (by simp; decide)
      (keywordFree_append hitemFree (by decide) (by simp; decide))
    · refine List.forall_mem_append.mpr ⟨hu.blank_indent, by decide⟩
    · obtain ⟨c, item, rfl⟩ := List.exists_cons_of_ne_nil hne
      exact hfirst

/-- White space in front of a line makes no difference to whether it is `Tame`. -/
theorem Tame.indented {line : Text} (h : Tame line) {indent : Text}
    (hindent : ∀ c ∈ indent, isBlank c = true) : Tame (indent ++ line) := by
  have hbracket : '(' ∉ indent := fun hmem => absurd (hindent _ hmem) (by decide)
  have hequals' : '=' ∉ indent := fun hmem => absurd (hindent _ hmem) (by decide)
  have hdrop : (indent ++ line).dropWhile isBlank = line.dropWhile isBlank :=
    List.dropWhile_append_of_pos hindent
  cases h with
  -- The tests read the word behind the indentation, and more indentation does not change it.
  | bare h => exact .bare (List.not_mem_append hbracket h)
  | statement hequals hfirst =>
    exact .statement (List.not_mem_append hequals' hequals) (by rwa [hdrop])
  | @call front rest hline hfront hword hrest =>
    have hopen : indent ++ line = indent ++ front ++ '(' :: rest := by
      rw [hline, List.append_assoc]
    refine .call hopen (List.not_mem_append hbracket hfront) ?_ hrest
    rwa [leadingWord, hdrop, ← leadingWord]

end TypedOps.Layout
