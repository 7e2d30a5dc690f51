import TypedOps.Proofs.Emit.DocTexts
import TypedOps.Proofs.Emit.FenceState

/-!
# `TypedOps.Proofs.Emit.BalancedBlocks`: blocks of code in a docstring

A text that is rendered alone may open blocks of code and close each of them. In a docstring it
still does, however its lines are indented and whatever head of a field is put in front of them,
since that is done after rendering: `total_count_docstringLines` says that a docstring is balanced
just when each of the texts it is rendered from is.

Two of these texts are not texts of the documentation. The message on deprecation, and the
description of one of several outputs, get something in front of them before they are rendered, and
a fence at their beginning is then no fence any more. What that changes is the block that the first
line would open (`Hides.leavesOpen_append`), and `balanced_docstringLines_iff` puts this together.
-/

set_option autoImplicit false

namespace TypedOps

open Naming (parameter)
open Text

namespace Comment

/-! ### Balanced texts -/

/-- A text whose lines, as `render` gives them, close as many blocks as they open. -/
def Balanced (t : Text) : Prop := (render t).count codeOpen = (render t).count codeClose

instance (t : Text) : Decidable (Balanced t) :=
  inferInstanceAs (Decidable ((render t).count codeOpen = (render t).count codeClose))

/-- The markers of a text differ in number by the block that it leaves open, since `render` closes
no block of its own accord. -/
theorem count_render (t : Text) :
    (render t).count codeOpen = (render t).count codeClose + (leavesOpen t).toNat := by
  rw [render]
  split
  · next hempty =>
    rw [List.isEmpty_iff.mp hempty]
    decide
  · exact count_renderLines false (lines t)

/-- A text is `Balanced` exactly when it leaves no block open, which is the form that is computed
with below. -/
theorem balanced_iff (t : Text) : Balanced t ↔ leavesOpen t = false := by
  rw [Balanced, count_render]
  cases leavesOpen t <;> simp

/-- In a line of `render` the marker of a block is found only if the line is that marker: markers in
the text itself are escaped. -/
theorem count_of_mem_render {t line m : Text} (hm : m ∈ blockMarkers) (hline : line ∈ render t) :
    Text.count m line = if line = m then 1 else 0 := by
  rcases mem_blockMarkers_or_spans hline with hmarker | hspans
  · have hall : ∀ m ∈ blockMarkers, ∀ line ∈ blockMarkers,
        Text.count m line = if line = m then 1 else 0 := by decide
    exact hall m hm line hmarker
  · have hnonempty : ∀ m ∈ blockMarkers, m ≠ [] := by decide
    have hnone : ¬m <:+: line := hspans.not_isInfix_marker hm
    have hother : line ≠ m := by
      rintro rfl
      exact hnone List.infix_rfl
    rw [(count_eq_zero_iff (hnonempty m hm) line).mpr hnone, if_neg hother]

/-- In the lines of `render` the occurrences of a marker are the lines that it is, so counting lines
is counting occurrences. -/
theorem total_count_render {m : Text} (hm : m ∈ blockMarkers) (t : Text) :
    total (Text.count m) (render t) = (render t).count m := by
  have hlines : ∀ ls : List Text, (∀ l ∈ ls, Text.count m l = if l = m then 1 else 0) →
      total (Text.count m) ls = ls.count m := by
    intro ls hls
    induction ls with
    | nil => rfl
    | cons l ls ih =>
      rw [List.forall_mem_cons] at hls
      rw [total_cons, ih hls.2, hls.1, List.count_cons, Nat.add_comm]
      simp
  exact hlines _ fun l hl => count_of_mem_render hm hl

/-- The occurrences of `codeOpen` and of `codeClose` in several texts, each rendered alone, differ
in number by the texts that leave a block open. -/
theorem total_count_flatMap (ts : List Text) :
    total (Text.count codeOpen) (ts.flatMap render) =
      total (Text.count codeClose) (ts.flatMap render) +
        total (fun t => (leavesOpen t).toNat) ts := by
  induction ts with
  | nil => rfl
  | cons t ts ih =>
    have hopen := total_count_render (m := codeOpen) (by decide) t
    have hclose := total_count_render (m := codeClose) (by decide) t
    have hrender := count_render t
    rw [List.flatMap_cons, total_append, total_append, total_cons]
    omega

/-! ### Texts behind others -/

/-- Lines of white space open no block and close none, so `openBehind` keeps its state. -/
theorem openBehind_blank (inside : Bool) {raws : List Text}
    (h : ∀ raw ∈ raws, ∀ c ∈ raw, isBlank c = true) : openBehind inside raws = inside := by
  induction raws with
  | nil => rfl
  | cons raw raws ih =>
    rw [List.forall_mem_cons] at h
    have hnone : ¬fence <+: strip raw := by
      rw [← List.nil_append raw, strip_append_blank [] h.1]
      decide
    rw [openBehind, renderLine_of_not_fenced hnone, ih h.2]

/-- White space at the end of a text does not change whether it `leavesOpen` a block. -/
theorem leavesOpen_append_blank (t : Text) {behind : Text}
    (h : ∀ c ∈ behind, isBlank c = true) : leavesOpen (t ++ behind) = leavesOpen t := by
  obtain ⟨front, last, hlines, happend⟩ := exists_lines_append t
  obtain ⟨first, rest, hbehind⟩ := List.exists_cons_of_ne_nil (splitOn_ne_nil '\n' behind)
  have hpiece : ∀ raw ∈ first :: rest, ∀ c ∈ raw, isBlank c = true := fun raw hraw c hc =>
    h c ((isInfix_of_mem_lines (by rwa [lines, hbehind])).subset hc)
  rw [List.forall_mem_cons] at hpiece
  -- The last line of the text gets longer, and is stripped to the same.
  have hlast : ∀ inside, renderLine inside (last ++ first) = renderLine inside last := by
    intro inside
    rw [renderLine, renderLine, strip_append_blank last hpiece.1]
  rw [leavesOpen, leavesOpen, happend, hlines, lines, hbehind, inFront, openBehind_append,
    openBehind_append, openBehind, hlast, openBehind_blank _ hpiece.2]
  rfl

/-- Whether the first line of a text opens a block and leaves it open. This is the line that changes
its meaning behind `deprecationHeading` or a name. -/
def opensBlock (t : Text) : Bool := openBehind false ((lines t).take 1)

/-- A text on one line that is not blank and holds no backtick. What comes behind it does not begin
with a fence for `renderLine` any more. -/
structure Hides (front : Text) : Prop where
  oneLine : OneLine front
  free : backtick ∉ front
  nonblank : ∃ c ∈ front, isBlank c = false

instance (front : Text) : Decidable (Hides front) :=
  decidable_of_iff (OneLine front ∧ backtick ∉ front ∧ ∃ c ∈ front, isBlank c = false)
    ⟨fun h => ⟨h.1, h.2.1, h.2.2⟩, fun h => ⟨h.oneLine, h.free, h.nonblank⟩⟩

/-- Behind a text that `Hides` a fence, the first line of another opens no block, and the rest of it
is read the same way. -/
theorem Hides.leavesOpen_append {front : Text} (h : Hides front) (t : Text) :
    leavesOpen (front ++ t) = (leavesOpen t ^^ opensBlock t) := by
  obtain ⟨first, rest, hlines⟩ := List.exists_cons_of_ne_nil (splitOn_ne_nil '\n' t)
  -- What stands in front has a first code point that is no backtick, so stripping the line leaves
  -- no fence at its beginning.
  have hhidden : ¬fence <+: strip (front ++ first) := by
    obtain ⟨indent, c, behind, rfl, hindent, hc⟩ := exists_first_nonblank h.nonblank
    rintro ⟨later, hlater⟩
    obtain ⟨stripped, hstrip⟩ := exists_strip_eq hindent hc (behind ++ first)
    rw [List.append_assoc, List.cons_append, hstrip] at hlater
    have hbegin : backtick = c := (List.cons.inj hlater).1
    exact h.free (by simp [hbegin])
  have hbehind : leavesOpen (front ++ t) = openBehind false rest := by
    rw [leavesOpen, lines, splitOn_append h.oneLine, hlines, inFront, openBehind,
      renderLine_of_not_fenced hhidden]
  have halone : leavesOpen t = openBehind (opensBlock t) rest := by
    rw [opensBlock, leavesOpen, lines, hlines]
    rfl
  rw [hbehind, halone]
  -- Only the first line is read differently. If it opened a block before, the rest starts from the
  -- other state, and `openBehind_not` turns the answer around.
  cases opensBlock t
  · exact (Bool.xor_false _).symm
  · have hother : openBehind true rest = !openBehind false rest := openBehind_not false rest
    rw [hother, Bool.xor_true, Bool.not_not]

/-- A text that `Hides` a fence leaves no block open where nothing follows. -/
theorem Hides.leavesOpen_eq_false {front : Text} (h : Hides front) : leavesOpen front = false := by
  rw [← List.append_nil front, h.leavesOpen_append]
  decide

/-- More on the same line, without a backtick, still `Hides` a fence behind it. -/
theorem Hides.append {front more : Text} (h : Hides front) (hone : OneLine more)
    (hfree : backtick ∉ more) : Hides (front ++ more) where
  oneLine := oneLine_append.mpr ⟨h.oneLine, hone⟩
  free := List.not_mem_append h.free hfree
  nonblank := by
    obtain ⟨c, hc, hsome⟩ := h.nonblank
    exact ⟨c, List.mem_append_left more hc, hsome⟩

end Comment

namespace Operation

open Comment (Balanced Hides codeClose codeOpen leavesOpen opensBlock)

variable {op : Operation} {doc : Documentation}

/-! ### Docstrings -/

/-- An operation `Carries` the count of what begins with an angle bracket: the heads of fields make
no difference, because an identifier holds none. -/
theorem carries_count (hnames : op.WellNamed) (name : Text) :
    op.Carries (Text.count ('<' :: name)) := by
  -- Nothing in front of a line begins with an angle bracket, so it adds nothing to the count.
  have hbehind : ∀ front line, '<' ∉ front →
      Text.count ('<' :: name) (front ++ line) = Text.count ('<' :: name) line :=
    fun front line h => count_append_of_not_mem h line
  have hhead : ∀ head, '<' ∉ head → IsHead (Text.count ('<' :: name)) head := fun head h =>
    { alone := by
        rw [← List.append_nil head, hbehind head [] h]
        rfl
      inFront := fun line _ => by
        rw [List.append_cons, hbehind _ _ (List.not_mem_append h (by decide))] }
  have hparameter : ∀ key, IsIdentifier key → '<' ∉ paramHead (parameter key) := fun key h =>
    List.not_mem_append (List.not_mem_append (by decide)
      ((Naming.isIdentifier_parameter h).not_mem (by decide))) (by decide)
  exact
    { empty := rfl
      indented := fun line _ => hbehind indentUnit line (by decide)
      inputs := fun a ha => hhead _ (hparameter _ (hnames.inputs a ha))
      attributes := fun a ha => hhead _ (hparameter _ (hnames.attributes a ha))
      name := hhead _ (by decide)
      result := hhead _ (by decide) }

/-- The lines of `docstringLines` close as many blocks as they open exactly when each of the
`docTexts` does. -/
theorem total_count_docstringLines {ls : List Text} (hnames : op.WellNamed)
    (h : docstringLines op doc = .ok ls) :
    total (Text.count codeOpen) ls = total (Text.count codeClose) ls ↔
      ∀ t ∈ op.docTexts doc, leavesOpen t = false := by
  have hopen : op.Carries (Text.count codeOpen) := carries_count hnames _
  have hclose : op.Carries (Text.count codeClose) := carries_count hnames _
  have hcount := Comment.total_count_flatMap (op.docTexts doc)
  have hzero := total_eq_zero_iff (fun t => (leavesOpen t).toNat) (op.docTexts doc)
  simp only [Bool.toNat_eq_zero] at hzero
  rw [total_docstringLines hopen h, total_docstringLines hclose h, hcount, ← hzero]
  omega

/-- The texts of the documentation that get something in front of them before `render` sees them. -/
def embeddedTexts (op : Operation) (doc : Documentation) : List Text :=
  op.deprecationText doc ::
    if op.outputs.length ≤ 1 then [] else op.outputs.map fun a => describe doc.outputs a.name

/-- Documentation each text of which is `Balanced` by itself, as the sources of the documentation
are. -/
structure BalancedTexts (op : Operation) (doc : Documentation) : Prop where
  summary : Balanced doc.summary
  description : Balanced doc.description
  deprecation : Balanced (op.deprecationText doc)
  inputs : ∀ d ∈ doc.inputs, Balanced d.description
  outputs : ∀ d ∈ doc.outputs, Balanced d.description
  attributes : ∀ d ∈ doc.attributes, Balanced d.description

/-- In balanced documentation, what `describe` finds for any name leaves no block open. -/
theorem leavesOpen_describe {entries : List NamedDescription}
    (h : ∀ d ∈ entries, Balanced d.description) (name : Text) :
    leavesOpen (describe entries name) = false := by
  rw [describe]
  cases hfound : entries.find? (·.name == name) with
  | none => decide
  | some d => exact (Comment.balanced_iff _).mp (h d (List.mem_of_find?_eq_some hfound))

/-- The digits of `ofInt` hold no backtick, so the number of a version may stand in a heading. -/
theorem backtick_not_mem_ofInt (i : Int) : Comment.backtick ∉ ofInt i :=
  fun hmem => absurd (numeral_ofInt i _ hmem) (by decide)

/-- The `deprecationHeading` `Hides` a fence behind it, since the fence no longer begins its line.
-/
theorem hides_deprecationHeading (op : Operation) : Hides op.deprecationHeading := by
  rw [deprecationHeading]
  split
  · have hstart : Hides "Deprecated at graph version " := by decide
    have hversion := (plain_ofInt op.deprecationVersion).oneLine
    exact (hstart.append hversion (backtick_not_mem_ofInt _)).append (by decide) (by decide)
  · decide

/-- The `deprecationNote?` leaves a block open exactly when the first line of a balanced message
opens one: the heading hides that fence, and the one that closes the block opens it. -/
theorem leavesOpen_deprecationNote (h : Balanced (op.deprecationText doc)) :
    (∀ t ∈ (deprecationNote? op doc).toList, leavesOpen t = false) ↔
      opensBlock (op.deprecationText doc) = false := by
  have hheading := hides_deprecationHeading op
  rw [deprecationNote?_eq]
  by_cases hempty : op.deprecationText doc = []
  · have hnone : opensBlock [] = false := by decide
    rw [hempty, hnone]
    split <;> simp [hheading.leavesOpen_eq_false]
  · have hspaced : Hides (op.deprecationHeading ++ [' ']) := hheading.append (by decide) (by decide)
    rw [if_neg fun h => hempty h.2, if_neg hempty, Option.toList_some, List.forall_mem_singleton,
      List.append_cons, hspaced.leavesOpen_append, (Comment.balanced_iff _).mp h, Bool.false_xor]

/-- The `tupleItem` on one of several outputs leaves a block open exactly when the first line of its
description opens one. -/
theorem leavesOpen_tupleItem {a : Argument} (hname : IsIdentifier a.name)
    (h : ∀ d ∈ doc.outputs, Balanced d.description) :
    leavesOpen (tupleItem doc a) = opensBlock (describe doc.outputs a.name) := by
  have hparameter := Naming.isIdentifier_parameter hname
  have hfront : Hides (parameter a.name ++ ": ") :=
    { oneLine := oneLine_append.mpr ⟨hparameter.plain.oneLine, by decide⟩
      free := List.not_mem_append (hparameter.not_mem (by decide)) (by decide)
      nonblank := ⟨':', List.mem_append_right _ (by decide), by decide⟩ }
  -- What is trimmed from the end is white space.
  obtain ⟨behind, hbehind, hblank⟩ :=
    exists_trimEnd_append isBlank (parameter a.name ++ ": " ++ describe doc.outputs a.name)
  have hwhole := congrArg leavesOpen hbehind
  rw [Comment.leavesOpen_append_blank _ hblank, hfront.leavesOpen_append,
    leavesOpen_describe h a.name, Bool.false_xor] at hwhole
  exact hwhole.symm

/-- The `fixedNotes` leave no block open, as none of them holds a fence. -/
theorem leavesOpen_of_mem_fixedNotes : ∀ note ∈ fixedNotes, leavesOpen note = false := by
  have hnotes : ∀ note ∈ fixedNotes, Hides note := by
    simp only [fixedNotes, List.forall_mem_cons]
    refine ⟨of_literal Hides ?_, of_literal Hides ?_, .append (of_literal Hides ?_)
      (of_literal OneLine ?_) (of_literal (Comment.backtick ∉ ·) ?_), of_literal Hides ?_,
      .append (of_literal Hides ?_) (of_literal OneLine ?_) (of_literal (Comment.backtick ∉ ·) ?_),
      nofun⟩ <;> decide
  exact fun note h => (hnotes note h).leavesOpen_eq_false

/-- The `returnTexts` leave a block open exactly when the first line of what is said of one of
several outputs opens one. -/
theorem leavesOpen_returnTexts (hnames : op.WellNamed)
    (h : ∀ d ∈ doc.outputs, Balanced d.description) :
    (∀ t ∈ op.returnTexts doc, leavesOpen t = false) ↔
      ∀ t ∈ (if op.outputs.length ≤ 1 then []
        else op.outputs.map fun a => describe doc.outputs a.name), opensBlock t = false := by
  have hfixed := leavesOpen_of_mem_fixedNotes
  simp only [fixedNotes, List.forall_mem_cons] at hfixed
  obtain ⟨-, hnone, hsingle, hintro, htuple, -⟩ := hfixed
  have hitem := fun a ha => leavesOpen_tupleItem (hnames.outputs a ha) h
  rw [returnTexts]
  -- The texts depend on how many outputs there are, and a description stands behind other words
  -- only where there are several.
  rcases houtputs : op.outputs with _ | ⟨a, _ | ⟨b, rest⟩⟩
  · exact iff_of_true (List.forall_mem_singleton.mpr hnone) (by simp)
  · refine iff_of_true ?_ (by simp)
    exact List.forall_mem_cons.mpr
      ⟨leavesOpen_describe h a.name, List.forall_mem_singleton.mpr hsingle⟩
  · rw [houtputs] at hitem
    have hmany : ¬(a :: b :: rest).length ≤ 1 := by simp
    rw [if_neg hmany, List.forall_mem_append, List.forall_mem_append, List.forall_mem_map,
      List.forall_mem_map, List.forall_mem_singleton, List.forall_mem_singleton]
    constructor
    · exact fun hall a ha => (hitem a ha).symm.trans (hall.1.2 a ha)
    · exact fun hall => ⟨⟨hintro, fun a ha => (hitem a ha).trans (hall a ha)⟩, htuple⟩

/-- The `nameNote` on an operation leaves no block open, an identifier holding no backtick. -/
theorem leavesOpen_nameNote (hname : IsIdentifier op.name) :
    leavesOpen (nameNote op.name) = false := by
  have hfree : Comment.backtick ∉ op.name := hname.not_mem (by decide)
  have hbehind : ∀ front : Text, Hides front → leavesOpen (front ++ op.name ++ "'.") = false := by
    intro front h
    have hnamed := h.append hname.plain.oneLine hfree
    exact (hnamed.append (by decide) (by decide)).leavesOpen_eq_false
  exact hbehind _ (of_literal Hides (by decide))

/-- Balanced documentation gives `docstringLines` that close as many blocks as they open in all
cases but two: a text that gets something in front of it opens a block on its first line, or a
default is shown by a text that is not balanced itself. -/
theorem balanced_docstringLines_iff {ls : List Text} (hnames : op.WellNamed)
    (hdoc : op.BalancedTexts doc) (h : docstringLines op doc = .ok ls) :
    total (Text.count codeOpen) ls = total (Text.count codeClose) ls ↔
      (∀ t ∈ op.embeddedTexts doc, opensBlock t = false) ∧
        ∀ a ∈ op.classification.optional, ∀ t ∈ a.defaultTexts, Balanced t := by
  have hsummary := (Comment.balanced_iff _).mp hdoc.summary
  have hdescription := (Comment.balanced_iff _).mp hdoc.description
  have hoptional := leavesOpen_of_mem_fixedNotes _ List.mem_cons_self
  rw [total_count_docstringLines hnames h]
  simp only [docTexts, embeddedTexts, Comment.balanced_iff, List.forall_mem_append,
    List.forall_mem_singleton, List.forall_mem_map, List.forall_mem_flatMap, List.forall_mem_cons,
    leavesOpen_deprecationNote hdoc.deprecation, leavesOpen_returnTexts hnames hdoc.outputs,
    leavesOpen_nameNote hnames.name, leavesOpen_describe hdoc.inputs,
    leavesOpen_describe hdoc.attributes, hsummary, hdescription, hoptional, true_and, and_true,
    implies_true]
  exact and_right_comm

namespace Sample

/-- An operation with several outputs, each of which is described behind its name. -/
def halve : Operation where
  name := "Halve"
  outputs := [{ name := "low" }, { name := "high" }]

/-- A block of code, in a message on deprecation and in what is said of an output, with something in
front of it. -/
def halveDoc (lead : Text) : Documentation :=
  let block : Text := lead ++ "\x60\x60\x60\nsplit()\n\x60\x60\x60"
  { name := "Halve", deprecationMessage := block,
    outputs := [{ name := "low", description := block }] }

end Sample

/-- In the documentation of `halve`, blocks that begin on a line of their own stay blocks, also
behind a heading. -/
theorem balanced_docstringLines_halve :
    ∃ ls, docstringLines Sample.halve (Sample.halveDoc "Use:\n") = .ok ls ∧ codeOpen ∈ ls ∧
      total (Text.count codeOpen) ls = total (Text.count codeClose) ls := by
  obtain ⟨ls, hls, hmem⟩ : ∃ ls,
      docstringLines Sample.halve (Sample.halveDoc "Use:\n") = .ok ls ∧ codeOpen ∈ ls :=
    ⟨_, rfl, by decide⟩
  have hnames : Sample.halve.WellNamed := ⟨by decide, by decide, by decide, by decide⟩
  have hdoc : BalancedTexts Sample.halve (Sample.halveDoc "Use:\n") :=
    ⟨by decide, by decide, by decide, by decide, by decide, by decide⟩
  have hbegin : ∀ t ∈ Sample.halve.embeddedTexts (Sample.halveDoc "Use:\n"),
      opensBlock t = false := by decide
  exact ⟨ls, hls, hmem, (balanced_docstringLines_iff hnames hdoc hls).mpr ⟨hbegin, by decide⟩⟩

/-- In the documentation of `halve`, blocks at the beginning of a text do not stay blocks, balanced
as the text is: behind the note the fence that closes the block opens one. -/
theorem not_balanced_docstringLines_halve :
    ∃ ls, docstringLines Sample.halve (Sample.halveDoc []) = .ok ls ∧
      BalancedTexts Sample.halve (Sample.halveDoc []) ∧
      total (Text.count codeOpen) ls ≠ total (Text.count codeClose) ls := by
  obtain ⟨ls, hls⟩ : ∃ ls, docstringLines Sample.halve (Sample.halveDoc []) = .ok ls := ⟨_, rfl⟩
  have hnames : Sample.halve.WellNamed := ⟨by decide, by decide, by decide, by decide⟩
  have hdoc : BalancedTexts Sample.halve (Sample.halveDoc []) :=
    ⟨by decide, by decide, by decide, by decide, by decide, by decide⟩
  refine ⟨ls, hls, hdoc, fun hequal => ?_⟩
  have hnote : "Deprecated. \x60\x60\x60\nsplit()\n\x60\x60\x60".toList ∈
      Sample.halve.docTexts (Sample.halveDoc []) := by
    simp only [docTexts, List.mem_append]
    exact .inl (.inl (.inl (.inl (.inl (.inr (by decide))))))
  have hclosed := (total_count_docstringLines hnames hls).mp hequal _ hnote
  exact absurd hclosed (by decide)

end Operation

end TypedOps
