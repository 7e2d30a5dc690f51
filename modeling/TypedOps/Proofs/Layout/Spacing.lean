import TypedOps.Proofs.Layout.BlankLines

/-!
# `TypedOps.Proofs.Layout.Spacing`: the blank lines in front of a line

The first pass of the layout looks back: when a definition comes, it puts right the blank lines
on top of those already written. `respaceFrom` gives the same lines and looks at nothing twice.
Blank lines wait until a line comes that is not blank, and `spacing` says what becomes of them. It
knows the line and what kind of line stands above the blank ones (`Above`), and nothing else.

* `normalizeFrom_scanFrom`: the two agree. A docstring may end in blank lines for the first
  pass, but only another line of the docstring can come behind those.
* `scan_normalizeBlankLines`: spaced lines are scanned as they were, since blank lines hold no
  quotes.
* `respace_respace`: spacing is done at once, because it is for each line (`spacing_spacing`).
-/

set_option autoImplicit false

namespace TypedOps.Layout

open Text

/-! ### Spacing -/

/-- What stands above a run of blank lines: nothing, a class line, or anything else. This is all
that `spacing` has to know of it. -/
inductive Above where
  /-- Nothing stands above the run. -/
  | start
  /-- Above the run stands a class line. -/
  | classLine
  /-- Above the run stands another line that is not blank, or a line of a docstring. -/
  | other
deriving DecidableEq, Repr

/-- Whether a line belongs to a docstring or is not blank. Only lines that are not solid may go in
`respace`. -/
def ScannedLine.isSolid (line : ScannedLine) : Bool := line.inDocstring || !isBlankLine line.text

/-- What a line is for the blank lines behind it, as a case of `Above`. -/
def ScannedLine.above (line : ScannedLine) : Above :=
  if !line.inDocstring && isClassLine line.text then .classLine else .other

/-- Lines outside docstrings, each as a `ScannedLine`. -/
def unmarked (ls : List Text) : List ScannedLine := ls.map fun t => ⟨t, false⟩

/-- Exactly `count` blank lines: the first ones, and empty ones behind them. -/
def resized (count : Nat) (blanks : List Text) : List Text :=
  blanks.take count ++ List.replicate (count - blanks.length) []

/-- The blank lines that are left by `spacing`: all of them, or none behind a class line. -/
def kept (above : Above) (blanks : List Text) : List Text :=
  if above = .classLine then [] else blanks

/-- The number of blank lines that a line is to have in front of it, if there is one. Only a line
with `isDefinition` has such a number. -/
def wanted? (above : Above) (line : ScannedLine) : Option Nat :=
  if line.inDocstring || !isDefinition line.text then none
  else if !startsWith line.text " " then some 2
  else if above = .classLine then none
  else some 1

/-- What becomes of the blank lines in front of a line, which is to have as many as `wanted?` says.
In front of the first line of all there are none to be put right. -/
def spacing (above : Above) (blanks : List Text) (line : ScannedLine) : List Text :=
  match wanted? above line with
  | none => kept above blanks
  | some count => if above = .start ∧ blanks = [] then [] else resized count (kept above blanks)

/-- Lines with blank lines put right, `blanks` being those that wait. -/
def respaceFrom (above : Above) (blanks : List Text) : List ScannedLine → List ScannedLine
  | [] => unmarked (kept above blanks)
  | line :: rest =>
    if line.isSolid then
      unmarked (spacing above blanks line) ++ line :: respaceFrom line.above [] rest
    else respaceFrom above (blanks ++ [line.text]) rest

/-- Lines with blank lines put right by `respaceFrom`, from the start of a file. -/
def respace (ls : List ScannedLine) : List ScannedLine := respaceFrom .start [] ls

/-! ### One run of blank lines -/

/-- A blank line is none that `isDefinition` accepts. -/
theorem isDefinition_of_isBlankLine {line : Text} (h : isBlankLine line = true) :
    isDefinition line = false := by
  rw [isBlankLine, List.isEmpty_iff] at h
  rw [isDefinition, h]
  rfl

/-- A blank line is none that `isClassLine` accepts. -/
theorem isClassLine_of_isBlankLine {line : Text} (h : isBlankLine line = true) :
    isClassLine line = false := by
  rw [isBlankLine, List.isEmpty_iff] at h
  rw [isClassLine, h]
  rfl

/-- Outside docstrings a line `isSolid` when it is not blank. -/
@[simp] theorem isSolid_code (t : Text) : (ScannedLine.mk t false).isSolid = !isBlankLine t :=
  Bool.false_or _

/-- Inside a docstring every line `isSolid`, also a blank one. -/
@[simp] theorem isSolid_docstring (t : Text) : (ScannedLine.mk t true).isSolid = true := rfl

/-- What is above a line that follows another is never `start`. -/
theorem ScannedLine.above_ne_start (line : ScannedLine) : line.above ≠ .start := by
  rw [above]
  split <;> simp

/-- What `above` remembers of a line is whether it is a class line outside docstrings. -/
theorem ScannedLine.above_eq_classLine_iff {line : ScannedLine} :
    line.above = .classLine ↔ line.inDocstring = false ∧ isClassLine line.text = true := by
  rw [above]
  split
  · next hclass => simpa using hclass
  · next hclass => simpa using hclass

/-- A line that is not one that `isSolid` is blank and stands outside docstrings. -/
theorem isBlankLine_of_not_isSolid {line : ScannedLine} (h : line.isSolid = false) :
    line.inDocstring = false ∧ isBlankLine line.text = true := by
  simpa [ScannedLine.isSolid] using h

/-- A line that `isDefinition` is solid, since it is not blank. -/
theorem isSolid_of_isDefinition {line : ScannedLine} (h : isDefinition line.text = true) :
    line.isSolid = true := by
  cases hblank : isBlankLine line.text with
  | false => simp [ScannedLine.isSolid, hblank]
  | true => simp [isDefinition_of_isBlankLine hblank] at h

/-- A line that `isClassLine` is solid, since it is not blank. -/
theorem isSolid_of_isClassLine {line : ScannedLine} (h : isClassLine line.text = true) :
    line.isSolid = true := by
  cases hblank : isBlankLine line.text with
  | false => simp [ScannedLine.isSolid, hblank]
  | true => simp [isClassLine_of_isBlankLine hblank] at h

/-- The blank lines that are `kept` are some of those that were there. -/
theorem mem_of_mem_kept {above : Above} {blanks : List Text} {t : Text}
    (h : t ∈ kept above blanks) : t ∈ blanks := by
  rw [kept] at h
  split at h
  · cases h
  · exact h

/-- The `spacing` in front of a line is made of blank lines that were there, and of empty ones. -/
theorem mem_spacing {above : Above} {blanks : List Text} {line : ScannedLine} {t : Text}
    (h : t ∈ spacing above blanks line) : t ∈ blanks ∨ t = [] := by
  rw [spacing] at h
  split at h
  · exact .inl (mem_of_mem_kept h)
  · split at h
    · cases h
    · rcases List.mem_append.mp h with h | h
      · exact .inl (mem_of_mem_kept (List.mem_of_mem_take h))
      · exact .inr (List.eq_of_mem_replicate h)

/-- The lines that `spacing` puts in front of a line are blank. -/
theorem isBlankLine_of_mem_spacing (above : Above) {blanks : List Text}
    (hblanks : ∀ t ∈ blanks, isBlankLine t = true) (line : ScannedLine) :
    ∀ t ∈ spacing above blanks line, isBlankLine t = true := by
  intro t ht
  rcases mem_spacing ht with ht | rfl
  · exact hblanks t ht
  · rfl

/-- The lines that `spacing` puts in front of a line stand on one line each. -/
theorem oneLine_of_mem_spacing {above : Above} {blanks : List Text} {line : ScannedLine}
    (hone : ∀ t ∈ blanks, OneLine t) : ∀ t ∈ spacing above blanks line, OneLine t := by
  intro t ht
  rcases mem_spacing ht with ht | rfl
  · exact hone t ht
  · decide

/-- Blank lines are `resized` to the number asked for. -/
theorem length_resized (count : Nat) (blanks : List Text) :
    (resized count blanks).length = count := by
  simp only [resized, List.length_append, List.length_take, List.length_replicate]
  omega

/-- Blank lines of the right number stay as they are when they are `resized`. -/
theorem resized_of_length {count : Nat} {blanks : List Text} (h : blanks.length = count) :
    resized count blanks = blanks := by
  subst h
  simp [resized]

/-- A definition at the margin has two blank lines `wanted?` in front of it. -/
theorem wanted?_margin (above : Above) (line : ScannedLine) (hmark : line.inDocstring = false)
    (hdefinition : isDefinition line.text = true) (hmargin : startsWith line.text " " = false) :
    wanted? above line = some 2 := by
  rw [wanted?, hmark, hdefinition, hmargin]
  rfl

/-- A definition further in has one blank line `wanted?` in front of it, and none is asked for
behind a class line. -/
theorem wanted?_nested (above : Above) (line : ScannedLine) (hmark : line.inDocstring = false)
    (hdefinition : isDefinition line.text = true) (hmargin : startsWith line.text " " = true) :
    wanted? above line = if above = .classLine then none else some 1 := by
  rw [wanted?, hmark, hdefinition, hmargin]
  rfl

/-- Only definitions outside docstrings have blank lines `wanted?` in front of them, and never none.
-/
theorem of_wanted? {above : Above} {line : ScannedLine} {count : Nat}
    (h : wanted? above line = some count) :
    line.inDocstring = false ∧ isDefinition line.text = true ∧
      (count = 2 ∧ startsWith line.text " " = false ∨ count = 1 ∧ above ≠ .classLine) := by
  -- The three tests of `wanted?` are made one after the other, and the first two have to succeed.
  cases hmark : line.inDocstring with
  | true => simp [wanted?, hmark] at h
  | false =>
    cases hdefinition : isDefinition line.text with
    | false => simp [wanted?, hdefinition] at h
    | true =>
      cases hmargin : startsWith line.text " " with
      | false =>
        rw [wanted?_margin above line hmark hdefinition hmargin, Option.some.injEq] at h
        exact ⟨rfl, rfl, .inl ⟨h.symm, rfl⟩⟩
      | true =>
        rw [wanted?_nested above line hmark hdefinition hmargin] at h
        split at h
        · cases h
        · next hclass => exact ⟨rfl, rfl, .inr ⟨(Option.some.inj h).symm, hclass⟩⟩

/-- The `spacing` that is put right in front of a line stays so when it is put right again. -/
theorem spacing_spacing (above : Above) (blanks : List Text) (line : ScannedLine) :
    spacing above (spacing above blanks line) line = spacing above blanks line := by
  unfold spacing
  cases hwanted : wanted? above line with
  | none =>
    simp only [kept]
    split <;> rfl
  | some count =>
    have hlength := length_resized count (kept above blanks)
    have hne : resized count (kept above blanks) ≠ [] := by
      intro hnil
      rw [hnil, List.length_nil] at hlength
      rcases (of_wanted? hwanted).2.2 with ⟨rfl, -⟩ | ⟨rfl, -⟩ <;> cases hlength
    simp only
    split
    · next hstart => simp [hstart.1]
    · rw [if_neg (fun hstart => hne hstart.2)]
      -- Behind a class line both runs are dropped first. Elsewhere the length is right.
      by_cases hclass : above = .classLine
      · simp [kept, hclass]
      · simp only [kept, if_neg hclass] at hlength ⊢
        exact resized_of_length hlength

/-! ### The first pass -/

/-- Blank lines on top of lines that do not end in a blank one are resized by `withBlanks`. -/
theorem withBlanks_reverse (count : Nat) {blanks base : List Text}
    (hblanks : ∀ t ∈ blanks, isBlankLine t = true)
    (hbase : base = [] ∨ ∃ top rest, base = top :: rest ∧ isBlankLine top = false) :
    withBlanks count (blanks.reverse ++ base) =
      (if base = [] ∧ blanks = [] then [] else (resized count blanks).reverse) ++ base := by
  have htop : (blanks.reverse.takeWhile isBlankLine) = blanks.reverse := by
    refine List.takeWhile_eq_self_iff.mpr fun t ht => hblanks t (List.mem_reverse.mp ht)
  have hresized : List.replicate (count - blanks.length) [] ++
      blanks.reverse.drop (blanks.length - count) = (resized count blanks).reverse := by
    rw [resized, List.reverse_append, List.reverse_replicate, List.reverse_take]
  rcases hbase with rfl | ⟨top, rest, rfl, hsolid⟩
  · by_cases hnil : blanks = []
    · simp [hnil, withBlanks]
    · rw [List.append_nil, List.append_nil, withBlanks, if_neg (by simpa using hnil), htop,
        List.length_reverse, hresized, if_neg fun h => hnil h.2]
  · rw [withBlanks_above count _ rest hsolid, htop, List.length_reverse, hresized,
      if_neg fun h => List.cons_ne_nil _ _ h.1]

/-- What is written where the scanner is, up to the last line that is not blank: outside docstrings,
nothing for `Above.start`, or lines whose last one is not blank. -/
def Reached (inside : Bool) (above : Above) (base : List Text) : Prop :=
  inside = false →
    if above = .start then base = [] else ∃ top rest, base = top :: rest ∧ isBlankLine top = false

/-- The blank lines in front of a definition are spaced as `withBlanks` writes them in the first
pass. -/
theorem withBlanks_kept {above : Above} {blanks base : List Text} {line : ScannedLine}
    {count : Nat} (hblanks : ∀ t ∈ blanks, isBlankLine t = true)
    (hbase : Reached false above base) (hwanted : wanted? above line = some count) :
    withBlanks count ((kept above blanks).reverse ++ base) =
      (spacing above blanks line).reverse ++ base := by
  have hkept : ∀ t ∈ kept above blanks, isBlankLine t = true := fun t ht =>
    hblanks t (mem_of_mem_kept ht)
  have hreached := hbase rfl
  rw [spacing, hwanted]
  split at hreached
  -- Before the first line there is nothing to space. Behind any other one, the first pass counts
  -- from a line that is not blank.
  · next hstart =>
    subst hstart hreached
    rw [withBlanks_reverse count hkept (.inl rfl)]
    by_cases hnil : blanks = [] <;> simp [hnil, kept]
  · next hstart =>
    rw [withBlanks_reverse count hkept (.inr hreached)]
    obtain ⟨top, rest, rfl, -⟩ := hreached
    simp [hstart]

/-- In `normalizeFrom`, a blank line waits in the first pass, or is dropped behind a class line. -/
theorem normalizeFrom_blank (above : Above) (blanks base : List Text) {line : Text}
    (hblank : isBlankLine line = true) (rest : List ScannedLine) :
    normalizeFrom (above = .classLine) ((kept above blanks).reverse ++ base)
        (⟨line, false⟩ :: rest) =
      normalizeFrom (above = .classLine) ((kept above (blanks ++ [line])).reverse ++ base)
        rest := by
  by_cases hclass : above = .classLine
  · simp [normalizeFrom, isDefinition_of_isBlankLine hblank, hclass, hblank, kept]
  · simp [normalizeFrom, isDefinition_of_isBlankLine hblank, hclass, kept,
      isClassLine_of_isBlankLine hblank]

/-- In `normalizeFrom`, a line that is not blank is written on the blank lines in front of it,
spaced. -/
theorem normalizeFrom_code {above : Above} {blanks base : List Text} {line : Text}
    (hblanks : ∀ t ∈ blanks, isBlankLine t = true) (hbase : Reached false above base)
    (hblank : isBlankLine line = false) (rest : List ScannedLine) :
    normalizeFrom (above = .classLine) ((kept above blanks).reverse ++ base)
        (⟨line, false⟩ :: rest) =
      normalizeFrom (isClassLine line)
        (line :: ((spacing above blanks ⟨line, false⟩).reverse ++ base)) rest := by
  rw [normalizeFrom]
  -- The three cases of a definition, and any other line.
  cases hdefinition : isDefinition line with
  | false =>
    have hnone : wanted? above ⟨line, false⟩ = none := by simp [wanted?, hdefinition]
    simp [spacing, hnone, hblank]
  | true =>
    cases hmargin : startsWith line " " with
    | false =>
      have hwanted := wanted?_margin above ⟨line, false⟩ rfl hdefinition hmargin
      rw [← withBlanks_kept hblanks hbase hwanted]
      rfl
    | true =>
      have hwanted := wanted?_nested above ⟨line, false⟩ rfl hdefinition hmargin
      by_cases habove : above = .classLine
      · rw [if_pos habove] at hwanted
        rw [spacing, hwanted]
        simp [hblank, habove]
      · rw [if_neg habove] at hwanted
        rw [← withBlanks_kept hblanks hbase hwanted]
        simp [habove]

/-- A line that leads out of a docstring holds quotes, so it is not blank and the lines are
`Reached` behind it. -/
theorem reached_docstring {inside : Bool} {line : Text} (base : List Text)
    (hflag : (inside || decide (0 < tripleQuotes line)) = true) :
    Reached (inside != (tripleQuotes line % 2 == 1)) (ScannedLine.mk line true).above
      (line :: base) := by
  intro hout
  refine ⟨_, _, rfl, ?_⟩
  rw [Bool.eq_false_iff]
  intro hblank
  rw [tripleQuotes_of_isBlankLine hblank] at hflag hout
  cases inside <;> simp at hflag hout

/-- Lines whose last one is not blank are `Reached` behind it. -/
theorem reached_code {line : Text} (base : List Text) (hblank : isBlankLine line = false) :
    Reached false (ScannedLine.mk line false).above (line :: base) := by
  intro _
  rw [if_neg (ScannedLine.mk line false).above_ne_start]
  exact ⟨_, _, rfl, hblank⟩

/-- The first pass writes the lines that `respaceFrom` gives, by induction over the scanned lines
with `Reached` as the invariant. -/
theorem normalizeFrom_scanFrom {inside : Bool} {above : Above} (blanks : List Text)
    {base : List Text} (hblanks : ∀ t ∈ blanks, isBlankLine t = true)
    (hbase : Reached inside above base) (ls : List Text) :
    normalizeFrom (above = .classLine) ((kept above blanks).reverse ++ base)
        (scanFrom inside ls) =
      base.reverse ++ (respaceFrom above blanks (scanFrom inside ls)).map ScannedLine.text := by
  induction ls generalizing inside above blanks base with
  | nil => simp [scanFrom, normalizeFrom, respaceFrom, unmarked, Function.comp_def]
  | cons line ls ih =>
    rw [scanFrom_cons]
    -- A solid line is written on its blank lines, and is itself what the next run stands on.
    have hsolid : ∀ flag next, (ScannedLine.mk line flag).isSolid = true →
        Reached next (ScannedLine.mk line flag).above
          (line :: ((spacing above blanks ⟨line, flag⟩).reverse ++ base)) →
        normalizeFrom ((ScannedLine.mk line flag).above = .classLine)
            (line :: ((spacing above blanks ⟨line, flag⟩).reverse ++ base)) (scanFrom next ls) =
          base.reverse ++ (respaceFrom above blanks (⟨line, flag⟩ :: scanFrom next ls)).map
            ScannedLine.text := by
      intro flag next hflag hreached
      have hstep := ih [] (by simp) hreached
      have hnil : kept (ScannedLine.mk line flag).above [] = [] := by
        rw [kept]
        split <;> rfl
      rw [hnil, List.reverse_nil, List.nil_append] at hstep
      rw [hstep, respaceFrom, if_pos hflag]
      simp [unmarked, Function.comp_def]
    cases hflag : inside || decide (0 < tripleQuotes line) with
    | true => exact hsolid true _ rfl (reached_docstring _ hflag)
    | false =>
      obtain ⟨rfl, hquotes⟩ : inside = false ∧ tripleQuotes line = 0 := by simpa using hflag
      rw [hquotes, bne_bare]
      cases hblank : isBlankLine line with
      | true =>
        have hmore : ∀ t ∈ blanks ++ [line], isBlankLine t = true :=
          List.forall_mem_append.mpr ⟨hblanks, List.forall_mem_singleton.mpr hblank⟩
        rw [normalizeFrom_blank above blanks base hblank, respaceFrom, if_neg (by simp [hblank])]
        exact ih _ hmore hbase
      | false =>
        have hwrite := hsolid false false (by simp [hblank]) (reached_code _ hblank)
        have hclass : decide ((ScannedLine.mk line false).above = .classLine) =
            isClassLine line := by
          simp [ScannedLine.above_eq_classLine_iff]
        rw [normalizeFrom_code hblanks hbase hblank, ← hclass, hwrite]

/-- The first pass over lines is `respace` over the scanned lines, marks aside. -/
theorem normalizeBlankLines_eq (ls : List Text) :
    normalizeBlankLines ls = (respace (scan ls)).map ScannedLine.text := by
  have hstart : Reached false .start [] := fun _ => rfl
  exact normalizeFrom_scanFrom [] (by simp) hstart ls

/-! ### Scanning spaced lines -/

/-- The scanner `Agrees` with lines without triple quotes as lines outside docstrings, where none is
open. -/
theorem agrees_unmarked_append {bare : List Text} (hbare : ∀ t ∈ bare, tripleQuotes t = 0)
    (ls : List ScannedLine) : Agrees false (unmarked bare ++ ls) ↔ Agrees false ls := by
  induction bare with
  | nil => rfl
  | cons line bare ih =>
    obtain ⟨hline, hrest⟩ := List.forall_mem_cons.mp hbare
    show Agrees false (⟨line, false⟩ :: (unmarked bare ++ ls)) ↔ _
    rw [agrees_cons, hline, bne_bare, ih hrest]
    simp

/-- The scanner `Agrees` with spaced lines if it did with the lines. No blank lines wait inside a
docstring. -/
theorem agrees_respaceFrom {inside : Bool} {above : Above} {blanks : List Text}
    {ls : List ScannedLine} (h : Agrees inside ls)
    (hblanks : ∀ t ∈ blanks, isBlankLine t = true) (hinside : inside = true → blanks = []) :
    Agrees inside (respaceFrom above blanks ls) := by
  induction ls generalizing inside above blanks with
  | nil =>
    cases inside with
    | true =>
      rw [respaceFrom, hinside rfl, kept]
      split <;> rfl
    | false =>
      have hbare : ∀ t ∈ kept above blanks, tripleQuotes t = 0 := fun t ht =>
        tripleQuotes_of_isBlankLine (hblanks t (mem_of_mem_kept ht))
      have hkept := (agrees_unmarked_append hbare []).mpr rfl
      rwa [List.append_nil] at hkept
  | cons line ls ih =>
    obtain ⟨hflag, hrest⟩ := (agrees_cons inside line ls).mp h
    rw [respaceFrom]
    split
    · have hline : Agrees inside (line :: respaceFrom line.above [] ls) :=
        (agrees_cons inside line _).mpr ⟨hflag, ih hrest (by simp) (by simp)⟩
      cases inside with
      | true =>
        -- The line belongs to the docstring, and nothing stands in front of it.
        have hnil : spacing above blanks line = [] := by
          rw [spacing, wanted?, ← hflag, hinside rfl]
          simp [kept]
        rw [hnil]
        exact hline
      | false =>
        have hspacing := isBlankLine_of_mem_spacing above hblanks line
        exact (agrees_unmarked_append (fun t ht => tripleQuotes_of_isBlankLine (hspacing t ht))
          _).mpr hline
    · next hsolid =>
      obtain ⟨hmark, hblank⟩ := isBlankLine_of_not_isSolid (Bool.eq_false_iff.mpr hsolid)
      rw [hmark, Bool.or_eq_false_iff] at hflag
      rw [tripleQuotes_of_isBlankLine hblank, bne_bare] at hrest
      refine ih hrest (List.forall_mem_append.mpr
        ⟨hblanks, List.forall_mem_singleton.mpr hblank⟩) ?_
      simp [hflag.1]

/-- The scanner `Agrees` with the lines of a whole file once they are spaced. -/
theorem agrees_respace {ls : List ScannedLine} (h : Agrees false ls) : Agrees false (respace ls) :=
  agrees_respaceFrom h (by simp) (by simp)

/-- The lines of `scan` agree with the scanner, which gave them their marks. -/
theorem agrees_scan (ls : List Text) : Agrees false (scan ls) := by
  rw [Agrees, scan, map_text_scanFrom]

/-- The scan of `normalizeBlankLines` marks spaced lines as they were marked before. -/
theorem scan_normalizeBlankLines (ls : List Text) :
    scan (normalizeBlankLines ls) = respace (scan ls) := by
  rw [normalizeBlankLines_eq]
  exact agrees_respace (agrees_scan ls)

/-! ### Spacing again -/

/-- For `respaceFrom`, blank lines in front of others wait with those that wait already. -/
theorem respaceFrom_unmarked_append (above : Above) (blanks : List Text) {more : List Text}
    (hmore : ∀ t ∈ more, isBlankLine t = true) (ls : List ScannedLine) :
    respaceFrom above blanks (unmarked more ++ ls) = respaceFrom above (blanks ++ more) ls := by
  induction more generalizing blanks with
  | nil => rw [List.append_nil]; rfl
  | cons line more ih =>
    obtain ⟨hline, hrest⟩ := List.forall_mem_cons.mp hmore
    show respaceFrom above blanks (⟨line, false⟩ :: (unmarked more ++ ls)) = _
    rw [respaceFrom, if_neg (by simp [hline]), ih _ hrest, List.append_assoc]
    rfl

/-- Spaced lines are left by `respaceFrom` as they are when they are spaced again from the same line
on. -/
theorem respaceFrom_respaceFrom (above : Above) {blanks : List Text}
    (hblanks : ∀ t ∈ blanks, isBlankLine t = true) (ls : List ScannedLine) :
    respaceFrom above [] (respaceFrom above blanks ls) = respaceFrom above blanks ls := by
  induction ls generalizing above blanks with
  | nil =>
    -- The blank lines at the end are kept or dropped, and keeping is done once.
    have hwaiting : ∀ t ∈ kept above blanks, isBlankLine t = true := fun t ht =>
      hblanks t (mem_of_mem_kept ht)
    have hkept := respaceFrom_unmarked_append above [] hwaiting []
    rw [List.append_nil, List.nil_append] at hkept
    rw [respaceFrom, hkept, respaceFrom]
    simp only [kept]
    split <;> rfl
  | cons line ls ih =>
    rw [respaceFrom]
    split
    · next hsolid =>
      -- The spacing of the line has just been written, so it is what the second pass finds.
      rw [respaceFrom_unmarked_append above [] (isBlankLine_of_mem_spacing above hblanks line),
        List.nil_append, respaceFrom, if_pos hsolid, spacing_spacing, ih _ (by simp)]
    · next hsolid =>
      obtain ⟨-, hblank⟩ := isBlankLine_of_not_isSolid (Bool.eq_false_iff.mpr hsolid)
      exact ih above (List.forall_mem_append.mpr ⟨hblanks, List.forall_mem_singleton.mpr hblank⟩)

/-- To `respace` the lines of a file again changes nothing. -/
theorem respace_respace (ls : List ScannedLine) : respace (respace ls) = respace ls :=
  respaceFrom_respaceFrom .start (by simp) ls

/-! ### The lines of a text -/

/-- Every line that `respaceFrom` gives was there, or is an empty one outside docstrings. -/
theorem mem_respaceFrom {above : Above} {blanks : List Text} {ls : List ScannedLine}
    {line : ScannedLine} (h : line ∈ respaceFrom above blanks ls) :
    line ∈ ls ∨ line.inDocstring = false ∧ (line.text ∈ blanks ∨ line.text = []) := by
  induction ls generalizing above blanks with
  | nil =>
    obtain ⟨t, ht, rfl⟩ := List.mem_map.mp h
    exact .inr ⟨rfl, .inl (mem_of_mem_kept ht)⟩
  | cons first ls ih =>
    rw [respaceFrom] at h
    split at h
    -- The line is one of the spacing, or the solid line itself, or comes later.
    · rcases List.mem_append.mp h with h | h
      · obtain ⟨t, ht, rfl⟩ := List.mem_map.mp h
        exact .inr ⟨rfl, mem_spacing ht⟩
      · rcases List.mem_cons.mp h with rfl | h
        · exact .inl List.mem_cons_self
        · rcases ih h with h | ⟨hmark, h | h⟩
          · exact .inl (List.mem_cons_of_mem _ h)
          · cases h
          · exact .inr ⟨hmark, .inr h⟩
    · next hsolid =>
      obtain ⟨hmark, -⟩ := isBlankLine_of_not_isSolid (Bool.eq_false_iff.mpr hsolid)
      rcases ih h with h | ⟨hline, h | h⟩
      · exact .inl (List.mem_cons_of_mem _ h)
      · rcases List.mem_append.mp h with h | h
        · exact .inr ⟨hline, .inl h⟩
        · left
          obtain ⟨text, flag⟩ := line
          obtain ⟨text', flag'⟩ := first
          rw [List.mem_singleton] at h
          simp only at hline hmark h
          rw [hline, hmark, h]
          exact List.mem_cons_self
      · exact .inr ⟨hline, .inr h⟩

/-- Lines are left by `respaceFrom` when there were any: only a class line drops those behind it. -/
theorem respaceFrom_start_ne_nil {blanks : List Text} {ls : List ScannedLine}
    (h : blanks ≠ [] ∨ ls ≠ []) : respaceFrom .start blanks ls ≠ [] := by
  induction ls generalizing blanks with
  | nil =>
    have hblanks := h.resolve_right fun hls => hls rfl
    simpa [respaceFrom, unmarked, kept] using hblanks
  | cons line ls ih =>
    rw [respaceFrom]
    split
    · simp
    · exact ih (.inl (by simp))

/-- The lines of `normalizeBlankLines` stand on one line each, if the lines of the text do. -/
theorem oneLine_of_mem_normalizeBlankLines {ls : List Text} (h : ∀ l ∈ ls, OneLine l) :
    ∀ l ∈ normalizeBlankLines ls, OneLine l := by
  intro l hl
  rw [normalizeBlankLines_eq] at hl
  obtain ⟨line, hline, rfl⟩ := List.mem_map.mp hl
  rcases mem_respaceFrom hline with hline | ⟨-, hline | hline⟩
  · exact h line.text (text_mem_of_mem_scan hline)
  · cases hline
  · rw [hline]
    decide

/-- There are lines in `normalizeBlankLines` if a text has any. -/
theorem normalizeBlankLines_ne_nil {ls : List Text} (h : ls ≠ []) :
    normalizeBlankLines ls ≠ [] := by
  have hscan : scan ls ≠ [] := by
    intro hnil
    rw [← map_text_scanFrom false ls, ← scan, hnil] at h
    exact h rfl
  rw [normalizeBlankLines_eq, Ne, List.map_eq_nil_iff]
  exact respaceFrom_start_ne_nil (.inr hscan)

end TypedOps.Layout
