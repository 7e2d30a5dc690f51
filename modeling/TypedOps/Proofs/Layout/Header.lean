import TypedOps.Layout.Header
import TypedOps.Proofs.Text.Pieces
import TypedOps.Run.Session

/-!
# `TypedOps.Proofs.Layout.Header`: the license in front of a module

The license is cut into lines at line feeds, and each of them becomes a comment. Whoever reads the
module as source text also ends a line at a carriage return, unless a line feed stands behind it,
and what comes next is then no longer in the comment. So the lines in front of the module docstring
are all comments, or empty, exactly if each carriage return of the license has something harmless
behind it (`withHeader_sourceLines`). The docstring and the code follow in any case.

Being harmless is passed along the text: it is a condition on what stands behind each end of a line
(`Guards`), so that of a text is that of its pieces.
-/

set_option autoImplicit false

namespace TypedOps.Layout

open Run (withLineFeeds)
open Text

/-- The lines of source text. A line feed ends a line, a carriage return does, and so do both
together, as `withLineFeeds` makes them all line feeds. -/
def sourceLines (t : Text) : List Text := lines (withLineFeeds t)

/-- A line that is empty or a comment. -/
def IsComment (line : Text) : Prop := ∀ c ∈ line.head?, c = '#'

/-- A text that begins with a line that is empty or a comment, as `IsComment` says of lines. -/
def Harmless (t : Text) : Prop := ∀ c ∈ t.head?, c = '\n' ∨ c = '\r' ∨ c = '#'

/-- Behind each code point of some kind the text goes on as a `Harmless` one. -/
def Guards (ends : Char → Prop) (t : Text) : Prop :=
  ∀ c after, c :: after <:+ t → ends c → Harmless after

/-- The code points that end a line of source text, in `sourceLines`. -/
def IsLineEnd (c : Char) : Prop := c = '\n' ∨ c = '\r'

/-! ### Guarded texts -/

theorem guards_nil (ends : Char → Prop) : Guards ends [] := by
  intro c after hsuffix
  cases List.suffix_nil.mp hsuffix

/-- One code point more in front of a text with `Guards` has to be guarded itself, if it is of the
kind. -/
theorem guards_cons {ends : Char → Prop} {c : Char} {t : Text} :
    Guards ends (c :: t) ↔ (ends c → Harmless t) ∧ Guards ends t := by
  constructor
  · intro h
    exact ⟨h c t (List.suffix_refl _), fun d after hsuffix =>
      h d after (hsuffix.trans (List.suffix_cons c t))⟩
  · rintro ⟨hfirst, hrest⟩ d after hsuffix
    rcases List.suffix_cons_iff.mp hsuffix with heq | hsuffix
    · cases heq
      exact hfirst
    · exact hrest d after hsuffix

/-- Whether a text is `Harmless` depends on its first code point, so a line feed behind it with more
text makes no difference. -/
theorem harmless_append_linefeed (s t : Text) : Harmless (s ++ '\n' :: t) ↔ Harmless s := by
  cases s with
  | nil => simp [Harmless]
  | cons c s => simp [Harmless]

/-- Two texts with a line feed between them have `Guards` if both have, and the second is harmless
where line feeds have to be guarded. -/
theorem guards_append_linefeed {ends : Char → Prop} {s t : Text} :
    Guards ends (s ++ '\n' :: t) ↔ Guards ends s ∧ (ends '\n' → Harmless t) ∧ Guards ends t := by
  induction s with
  | nil => simp only [List.nil_append, guards_cons, guards_nil, true_and]
  | cons c s ih =>
    rw [List.cons_append, guards_cons, guards_cons, ih, harmless_append_linefeed, and_assoc]

/-- Lines that each end in a line feed have `Guards` if each has by itself. Where line feeds have to
be guarded too, the lines begin as comments. -/
theorem guards_flatMap {ends : Char → Prop} {ls : List Text}
    (hcomment : ends '\n' → ∀ l ∈ ls, l.head? = some '#') :
    Guards ends (ls.flatMap (· ++ ['\n'])) ↔ ∀ l ∈ ls, Guards ends l := by
  induction ls with
  | nil => simp [guards_nil]
  | cons l ls ih =>
    -- What stands behind a line is nothing or another comment, and neither belongs to the line.
    have hrest : ends '\n' → Harmless (ls.flatMap (· ++ ['\n'])) := by
      intro hends
      cases ls with
      | nil => simp [Harmless]
      | cons next ls =>
        have hnext := hcomment hends next (by simp)
        intro c hc
        have hmark : '#' = c := by simpa [hnext] using hc
        exact .inr (.inr hmark.symm)
    rw [List.flatMap_cons, List.append_assoc, List.singleton_append, guards_append_linefeed,
      ih fun hends l hl => hcomment hends l (List.mem_cons_of_mem _ hl), List.forall_mem_cons,
      and_iff_right hrest]

/-! ### Lines of source text -/

/-- A line feed in front of a text puts an empty line in front of its `lines`. -/
theorem lines_linefeed (t : Text) : lines ('\n' :: t) = [] :: lines t :=
  lines_append_linefeed [] t

/-- Any other code point in front of a text belongs to the first of its `lines`. -/
theorem lines_cons {c : Char} (hc : c ≠ '\n') {t first : Text} {more : List Text}
    (h : lines t = first :: more) : lines (c :: t) = (c :: first) :: more := by
  have hmem : '\n' ∉ [c] := by simpa using Ne.symm hc
  have hsplit := splitOn_append hmem t
  rw [lines] at h ⊢
  rw [← List.singleton_append, hsplit, h]
  rfl

/-- A text has a first line, which is empty or a comment if the text is `Harmless`. The lines behind
it are, if the text is guarded behind the end of each line. -/
theorem exists_sourceLines (t : Text) :
    ∃ first more, sourceLines t = first :: more ∧ (IsComment first ↔ Harmless t) ∧
      ((∀ line ∈ more, IsComment line) ↔ Guards IsLineEnd t) := by
  simp only [sourceLines]
  fun_induction withLineFeeds t with
  | case1 => exact ⟨[], [], rfl, by simp [IsComment, Harmless], by simp [guards_nil]⟩
  | case2 rest ih =>
    -- The two end one line, and nothing is asked of the carriage return.
    obtain ⟨first, more, hlines, hfirst, hmore⟩ := ih
    refine ⟨[], first :: more, by rw [lines_linefeed, hlines], by simp [IsComment, Harmless], ?_⟩
    rw [List.forall_mem_cons, hfirst, hmore, guards_cons, guards_cons]
    simp [IsLineEnd, Harmless]
  | case3 c rest hpair ih =>
    obtain ⟨first, more, hlines, hfirst, hmore⟩ := ih
    rw [guards_cons]
    by_cases hend : IsLineEnd c
    · have hfeed : (if c = '\r' then '\n' else c) = '\n' := by
        rcases hend with rfl | rfl <;> rfl
      refine ⟨[], first :: more, by rw [hfeed, lines_linefeed, hlines], ?_, ?_⟩
      · rcases hend with rfl | rfl <;> simp [IsComment, Harmless]
      · rw [List.forall_mem_cons, hfirst, hmore]
        simp [hend]
    · obtain ⟨hfeed, hreturn⟩ : c ≠ '\n' ∧ c ≠ '\r' := not_or.mp hend
      rw [if_neg hreturn]
      refine ⟨c :: first, more, lines_cons hfeed hlines, ?_, ?_⟩
      · simp [IsComment, Harmless, hfeed, hreturn]
      · rw [hmore]
        simp [hend]

/-- Line ends are made out by `withLineFeeds` on either side of a line feed, unless it goes with a
carriage return in front. -/
theorem withLineFeeds_append {s : Text} (h : s.getLast? ≠ some '\r') (t : Text) :
    withLineFeeds (s ++ '\n' :: t) = withLineFeeds s ++ '\n' :: withLineFeeds t := by
  fun_induction withLineFeeds s with
  | case1 => rfl
  | case2 rest ih =>
    have hrest : rest.getLast? ≠ some '\r' := fun hlast => h (by simp [List.getLast?_cons, hlast])
    rw [List.cons_append, List.cons_append, withLineFeeds, ih hrest, List.cons_append]
  | case3 c rest hpair ih =>
    have hrest : rest.getLast? ≠ some '\r' := fun hlast => h (by simp [List.getLast?_cons, hlast])
    -- The pair that counts as one line end is not made up by what is put behind.
    have hpair' : ∀ rest', c = '\r' → rest ++ '\n' :: t = '\n' :: rest' → False := by
      rintro rest' rfl heq
      cases rest with
      | nil => exact h rfl
      | cons d rest => 
        cases heq
        exact hpair rest rfl rfl
    rw [List.cons_append, withLineFeeds, ih hrest, List.cons_append]
    exact hpair'

/-- The `sourceLines` of two texts with a line feed between them are those of the first, then those
of the second, unless a carriage return ends the first. -/
theorem sourceLines_append {s : Text} (h : s.getLast? ≠ some '\r') (t : Text) :
    sourceLines (s ++ '\n' :: t) = sourceLines s ++ sourceLines t := by
  rw [sourceLines, withLineFeeds_append h, lines_append_linefeed, ← sourceLines, ← sourceLines]

/-! ### The head of a module -/

/-- The `commentBlock` is one comment for each line of the trimmed text, each with its line feed. -/
theorem commentBlock_eq (t : Text) :
    commentBlock t = ((lines (trimEnd (· == '\n') t)).map commentLine).flatMap (· ++ ['\n']) :=
  unlines_linefeed (by simp [lines, splitOn_ne_nil])

/-- A `commentLine` begins with its mark, also where it is empty. -/
theorem head?_commentLine (line : Text) : (commentLine line).head? = some '#' := by
  unfold commentLine
  split <;> rfl

/-- On one line only carriage returns are an `IsLineEnd` of a source text. -/
theorem guards_oneLine {line : Text} (h : OneLine line) :
    Guards IsLineEnd line ↔ Guards (· = '\r') line := by
  refine forall₂_congr fun c after => forall_congr' fun hsuffix => ?_
  have hc : c ≠ '\n' := fun heq => h (heq ▸ hsuffix.subset List.mem_cons_self)
  simp only [IsLineEnd, hc, false_or]

/-- A `commentLine` is guarded where the line in it is, since the mark ends no line. -/
theorem guards_commentLine (line : Text) :
    Guards IsLineEnd (commentLine line) ↔ Guards IsLineEnd line := by
  have hmark : ¬IsLineEnd '#' ∧ ¬IsLineEnd ' ' := by simp [IsLineEnd]
  unfold commentLine
  split
  · next hempty => simp [List.isEmpty_iff.mp hempty, guards_cons, guards_nil, hmark]
  · simp [guards_cons, hmark]

/-- Line feeds at the end of a text change nothing about the `Guards` behind its carriage returns.
-/
theorem guards_append_linefeeds (s : Text) {behind : Text} (h : ∀ c ∈ behind, c = '\n') :
    Guards (· = '\r') (s ++ behind) ↔ Guards (· = '\r') s := by
  induction behind generalizing s with
  | nil => rw [List.append_nil]
  | cons c behind ih =>
    obtain ⟨rfl, hbehind⟩ := List.forall_mem_cons.mp h
    have hnone := ih [] hbehind
    rw [List.nil_append] at hnone
    rw [guards_append_linefeed, hnone]
    simp [guards_nil]

/-- A `commentBlock` is guarded behind every line end if the text is guarded behind its carriage
returns. -/
theorem guards_commentBlock (t : Text) :
    Guards IsLineEnd (commentBlock t) ↔ Guards (· = '\r') t := by
  obtain ⟨behind, heq, hbehind⟩ := exists_trimEnd_append (· == '\n') t
  have hne : lines (trimEnd (· == '\n') t) ≠ [] := splitOn_ne_nil '\n' _
  have hwhole : Guards (· = '\r') t ↔
      Guards (· = '\r') ((lines (trimEnd (· == '\n') t)).flatMap (· ++ ['\n'])) := by
    rw [← unlines_linefeed hne, unlines_lines, guards_append_linefeeds _ (by simp)]
    conv_lhs => rw [heq]
    exact guards_append_linefeeds _ fun c hc => eq_of_beq (hbehind c hc)
  rw [hwhole, commentBlock_eq, guards_flatMap, guards_flatMap fun hends => absurd hends (by decide),
    List.forall_mem_map]
  · exact forall₂_congr fun line hline =>
      (guards_commentLine line).trans (guards_oneLine (oneLine_of_mem_lines hline))
  · exact fun _ => List.forall_mem_map.mpr fun line _ => head?_commentLine line

/-- A `commentBlock` begins with a comment, so it does no harm behind a line end. -/
theorem harmless_commentBlock (t : Text) : Harmless (commentBlock t) := by
  obtain ⟨line, rest, hlines⟩ :=
    List.exists_cons_of_ne_nil (splitOn_ne_nil '\n' (trimEnd (· == '\n') t))
  rw [commentBlock_eq, lines, hlines, List.map_cons, List.flatMap_cons]
  simp [Harmless, head?_commentLine]

/-- A `commentBlock` ends in a line feed, so what follows begins on a line of its own. -/
theorem getLast?_commentBlock (t : Text) : (commentBlock t).getLast? = some '\n' :=
  List.getLast?_concat

/-- The head that `withHeader` gives a module is a block of comments, an empty line and the
docstring, with the code behind it. -/
theorem withHeader_eq (code : Text) (license : Option Text) :
    withHeader code license =
      commentBlock (license.getD defaultLicense) ++ '\n' :: (moduleDocstring ++ '\n' :: code) := by
  rw [withHeader, List.append_assoc, List.cons_append]

/-- The source lines behind `withHeader` are those of the block of comments, and then those of the
docstring and the code. -/
theorem sourceLines_withHeader (code : Text) (license : Option Text) :
    sourceLines (withHeader code license) =
      sourceLines (commentBlock (license.getD defaultLicense)) ++
        sourceLines (moduleDocstring ++ '\n' :: code) := by
  rw [withHeader_eq, sourceLines_append]
  rw [getLast?_commentBlock]
  decide

/-- Empty lines and comments only are put by `withHeader` in front of the module docstring, exactly
if behind each carriage return the license is at its end, ends a line or begins a comment. Behind
them come the docstring and the code, unchanged. -/
theorem withHeader_sourceLines (code : Text) (license : Option Text) :
    moduleDocstring ++ '\n' :: code <:+ withHeader code license ∧
      ∃ head, sourceLines (withHeader code license) =
          head ++ sourceLines (moduleDocstring ++ '\n' :: code) ∧
        ((∀ line ∈ head, IsComment line) ↔
          Guards (· = '\r') (license.getD defaultLicense)) := by
  obtain ⟨first, more, hlines, hfirst, hmore⟩ :=
    exists_sourceLines (commentBlock (license.getD defaultLicense))
  refine ⟨?_, first :: more, ?_, ?_⟩
  · rw [withHeader_eq]
    exact (List.suffix_cons _ _).trans (List.suffix_append _ _)
  · rw [sourceLines_withHeader, hlines]
  · rw [List.forall_mem_cons, hfirst, hmore, guards_commentBlock,
      and_iff_right (harmless_commentBlock _)]

/-- A carriage return in the license of `withHeader` lets what stands behind it out of the comment.
-/
theorem withHeader_carriageReturn :
    sourceLines (withHeader [] (some "MIT\rimport os")) =
        [("# MIT" : Text), "import os", []] ++ sourceLines (moduleDocstring ++ ['\n']) ∧
      ¬IsComment "import os" := by
  have hblock : sourceLines (commentBlock "MIT\rimport os") =
      [("# MIT" : Text), "import os", []] := by
    decide
  refine ⟨?_, fun h => absurd (h 'i' rfl) (by decide)⟩
  rw [sourceLines_withHeader, Option.getD_some, hblock]

end TypedOps.Layout
