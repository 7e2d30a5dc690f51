import TypedOps.Proofs.Emit.DocTexts
import TypedOps.Proofs.Emit.FenceState
import TypedOps.Proofs.Layout.Idempotence

/-!
# `TypedOps.Proofs.Emit.Trimmed`: white space at the end of generated lines

Every statement of a generated method ends in a bracket, a colon or a name, and rendering strips
each line of documentation. What is left are docstrings, and there a line may end in white space
in one way: a block that opens and closes on one line is cut out of that line after stripping, so
the white space in front of its closing fence comes to the end of a line of its own.

* `trimmed_escapedDocLine`: escaping writes some white space out and keeps the rest (`trails`).
* `trails_renderLine`: the step over one line of documentation, by `LineForm`.
* `trails_docstringLines`: a docstring has a line that trails just when one of its texts does.
* `trimmed_generateModule_iff`: so does a module.
-/

set_option autoImplicit false

namespace TypedOps

open Layout (Unspaced)
open Naming (parameter)
open Operation (Pieces)
open Text

/-! ### Ends of lines -/

namespace Text

/-- A text without white space, in the sense of `isBlank`, at its end. -/
def Trimmed (t : Text) : Prop := ∀ c ∈ t.getLast?, isBlank c = false

instance (t : Text) : Decidable (Trimmed t) :=
  inferInstanceAs (Decidable (∀ c ∈ t.getLast?, isBlank c = false))

/-- Behind any other text, a text that is not empty decides whether the whole is `Trimmed`, for only
the end matters. -/
theorem trimmed_append_iff (s : Text) {t : Text} (hne : t ≠ []) : Trimmed (s ++ t) ↔ Trimmed t := by
  rw [Trimmed, List.getLast?_append_of_ne_nil _ hne, Trimmed]

/-- A `Trimmed` text that is not empty stays trimmed behind any other text. -/
theorem Trimmed.behind {t : Text} (h : Trimmed t) (hne : t ≠ []) (s : Text) : Trimmed (s ++ t) :=
  (trimmed_append_iff s hne).mpr h

end Text

/-- Whether a text ends in white space that a docstring keeps as it is, and that `escapedControl`
does not write out. -/
def trails (t : Text) : Bool := t.getLast?.any fun c => isBlank c && escapedControl c == [c]

/-- Behind any other text, a text that is not empty decides whether the whole `trails`. -/
theorem trails_append (s : Text) {t : Text} (hne : t ≠ []) : trails (s ++ t) = trails t := by
  rw [trails, List.getLast?_append_of_ne_nil _ hne, trails]

/-- A `Trimmed` text does not trail, since white space at the end is what both are about. -/
theorem trails_of_trimmed {t : Text} (h : Trimmed t) : trails t = false := by
  rw [trails]
  cases hlast : t.getLast? with
  | none => rfl
  | some c => simp [h c hlast]

/-- The `escapedControl` form of a code point ends in no white space, unless the code point is white
space that is kept. -/
theorem trimmed_escapedControl (c : Char) : Trimmed (escapedControl c) ↔ trails [c] = false := by
  have hnumber : ∀ n < 128, Trimmed (padded 16 2 n) ∧ padded 16 2 n ≠ [] := by decide +kernel
  by_cases hcontrol : (c.toNat < 32 && c.toNat != 9 && c.toNat != 10) || c.toNat = 127
  · -- A control character becomes a number, and that is neither white space nor `c`.
    have hwritten : escapedControl c = "\\x" ++ padded 16 2 c.toNat := if_pos hcontrol
    have hsmall : c.toNat < 128 := by
      simp only [Bool.or_eq_true, Bool.and_eq_true, decide_eq_true_eq] at hcontrol
      omega
    have hother : escapedControl c ≠ [c] := by
      rw [hwritten]
      exact fun heq => absurd (congrArg List.length heq) (by simp)
    refine iff_of_true ?_ (by simp [trails, hother])
    rw [hwritten]
    exact (hnumber _ hsmall).1.behind (hnumber _ hsmall).2 _
  · have hkept : escapedControl c = [c] := if_neg hcontrol
    simp [hkept, trails, Trimmed]

/-- Nothing but an empty line is written as an empty line by `escapedDocLine`. -/
theorem escapedDocLine_ne_nil {l : Text} : l ≠ [] → escapedDocLine l ≠ [] := by
  induction l using runInduction with
  -- A run of quotes is written with at least as many code points.
  | last n =>
    intro hne hempty
    have hpositive : n ≠ 0 := by
      rintro rfl
      exact hne rfl
    rw [escapedDocLine_fill, escapedRun] at hempty
    have hlength := congrArg List.length hempty
    simp [fill] at hlength
    omega
  | run n c t hc _ =>
    rw [escapedDocLine_fill_append_cons n hc]
    simp [(escapedOther_free hc).1]

/-- An `escapedDocLine` has white space at its end exactly when the line trails. -/
theorem trimmed_escapedDocLine (l : Text) : Trimmed (escapedDocLine l) ↔ trails l = false := by
  have hquotes : ∀ t : Text, (∀ c ∈ t, c = '\\' ∨ c = '"') → Trimmed t := by
    intro t ht c hc
    rcases ht c (List.mem_of_getLast? hc) with rfl | rfl <;> decide
  induction l using runInduction with
  | last n =>
    rw [escapedDocLine_fill]
    refine iff_of_true (hquotes _ fun c hc => mem_escapedRun hc) (trails_of_trimmed ?_)
    exact hquotes _ fun c hc => .inr (List.eq_of_mem_replicate hc)
  | run n c t hc ih =>
    rw [escapedDocLine_fill_append_cons n hc]
    rcases eq_or_ne t [] with rfl | hne
    · -- The last code point decides.
      obtain ⟨hother, -⟩ := escapedOther_free hc
      rw [show escapedDocLine [] = [] from rfl, List.append_nil, trimmed_append_iff _ hother,
        trails_append _ (List.cons_ne_nil _ _), escapedOther]
      split
      · next hslash =>
        rw [hslash]
        decide
      · rw [List.flatMap_singleton]
        exact trimmed_escapedControl c
    -- The rest of the line is not empty and is written as more than nothing, so it has the end on
    -- both sides.
    · have hwritten := escapedDocLine_ne_nil hne
      rw [trimmed_append_iff _ (by simp [hwritten]), trimmed_append_iff _ hwritten,
        trails_append _ (List.cons_ne_nil _ _), ← List.singleton_append, trails_append _ hne]
      exact ih

/-- A `docstringBlock` has no line with white space at its end exactly when no line of the docstring
trails. -/
theorem trimmed_docstringBlock (ls : List Text) :
    (∀ line ∈ docstringBlock ls, Trimmed line.text) ↔ ∀ l ∈ ls, trails l = false := by
  have hquotes : Trimmed tripleQuote := by decide
  have hfirst : ∀ l, Trimmed (tripleQuote ++ escapedDocLine l) ↔ trails l = false := by
    intro l
    rcases eq_or_ne l [] with rfl | hne
    · exact iff_of_true (by decide) rfl
    · rw [trimmed_append_iff _ (escapedDocLine_ne_nil hne), trimmed_escapedDocLine]
  cases ls with
  | nil => exact iff_of_true (by decide) (by simp)
  | cons first rest =>
    simp only [docstringBlock, List.forall_mem_map, List.forall_mem_append, List.forall_mem_cons,
      hfirst, trimmed_escapedDocLine, List.not_mem_nil, false_imp_iff, implies_true, and_true,
      hquotes]

/-! ### Rendered lines -/

namespace Comment

/-- An `escaped` text trails just when the text does: its end stays, or becomes an entity, which is
no white space. -/
theorem trails_escaped (t : Text) : trails (escaped t) = trails t := by
  rcases List.eq_nil_or_concat t with rfl | ⟨t, c, rfl⟩
  · rfl
  -- What the last code point becomes is all that matters.
  · have hlast : escapedChar c ≠ [] ∧ trails (escapedChar c) = trails [c] := by
      rw [escapedChar]
      split
      · next h => exact h ▸ by decide
      · split
        · next h => exact h ▸ by decide
        · split
          · next h => exact h ▸ by decide
          · exact ⟨List.cons_ne_nil _ _, rfl⟩
    rw [List.concat_eq_append, escaped, List.flatMap_append, List.flatMap_singleton,
      trails_append _ hlast.1, trails_append _ (List.cons_ne_nil _ _), hlast.2]

/-- Spans go on behind a text in the state in which `markSpans` leaves them. -/
theorem exists_markSpans_append (inside : Bool) (s t : Text) :
    ∃ open?, markSpans inside (s ++ t) = markSpans inside s ++ markSpans open? t := by
  induction s generalizing inside with
  | nil => exact ⟨inside, rfl⟩
  | cons c s ih =>
    rw [List.cons_append, markSpans, markSpans]
    split
    · obtain ⟨open?, hrest⟩ := ih !inside
      exact ⟨open?, by rw [hrest, List.append_assoc]⟩
    · obtain ⟨open?, hrest⟩ := ih inside
      exact ⟨open?, by rw [hrest, List.cons_append]⟩

/-- The end of a text is left by `markSpans`, or becomes a marker, which is no white space. -/
theorem trails_markSpans (inside : Bool) (t : Text) : trails (markSpans inside t) = trails t := by
  rcases List.eq_nil_or_concat t with rfl | ⟨t, c, rfl⟩
  · rfl
  · rw [List.concat_eq_append]
    obtain ⟨open?, hmarked⟩ := exists_markSpans_append inside t [c]
    have hlast : markSpans open? [c] ≠ [] ∧ trails (markSpans open? [c]) = trails [c] := by
      rw [markSpans]
      split
      · next h =>
        rw [h]
        cases open? <;> decide
      · exact ⟨List.cons_ne_nil _ _, rfl⟩
    rw [hmarked, trails_append _ hlast.1, trails_append _ (List.cons_ne_nil _ _), hlast.2]

/-- The text that a line holds between two marks of a `fence`, if it begins with one and ends with
another. -/
def enclosed? (raw : Text) : Option Text :=
  match afterStart? fence (strip raw) with
  | none => none
  | some rest => if endsWith rest fence then some (dropEnd rest fence.length) else none

/-- The text that `enclosed?` finds stands between the fences, with nothing but white space around
them. -/
theorem enclosed?_eq_some_iff {raw inner : Text} :
    enclosed? raw = some inner ↔ strip raw = fence ++ (inner ++ fence) := by
  rw [enclosed?]
  constructor
  · intro h
    split at h
    · cases h
    · next rest hrest =>
      split at h
      · next hends =>
        obtain ⟨inner', rfl⟩ := (endsWith_iff_isSuffix _ _).mp hends
        rw [dropEnd_append, Option.some.injEq] at h
        rw [eq_append_of_afterStart? hrest, h]
      · cases h
  -- The one suffix that is a fence is taken off again.
  · intro h
    have hends : endsWith (inner ++ fence) fence = true :=
      (endsWith_iff_isSuffix _ _).mpr (List.suffix_append inner fence)
    simp only [h, afterStart?_append, hends, if_true, dropEnd_append]

/-- A line is turned by `renderLine` into lines that trail exactly when it holds a block that does:
everywhere else the line was stripped. -/
theorem trails_renderLine (inside : Bool) (raw : Text) :
    (∀ l ∈ (renderLine inside raw).1, trails l = false) ↔
      ∀ inner ∈ enclosed? raw, trails inner = false := by
  have hmarker : ∀ open?, trails (fenceMarker open?) = false := by decide
  have hline : trails (strip raw) = false := trails_of_trimmed (getLast?_strip raw)
  simp only [Option.mem_def, enclosed?_eq_some_iff]
  -- Only in a line with fences at both ends something is left that was not stripped: what stands
  -- between them.
  cases lineForm raw with
  | bare hstart hrender =>
    refine iff_of_true ?_ fun inner h => absurd ⟨_, h.symm⟩ hstart
    simpa [hrender, trails_markSpans, trails_escaped] using hline
  | marker hfence hhint hrender =>
    refine iff_of_true ?_ fun inner h => ?_
    · simp [hrender, hmarker]
    · -- No language ends in a fence.
      have hlanguage : ∀ l ∈ languages, ¬fence <:+ l := by decide
      have hends := List.append_cancel_left (hfence.symm.trans h)
      rcases hhint with rfl | hmem
      · simp [fence, fill] at hends
      · exact absurd ⟨_, hends.symm⟩ (hlanguage _ hmem)
  | enclosed hfences hrender =>
    simp [hrender, hmarker, trails_markSpans, trails_escaped, hfences]
  | headed hfence hne hend hrender =>
    refine iff_of_true ?_ fun inner h => ?_
    · rw [hfence, trails_append _ hne] at hline
      simpa [hrender, hmarker, trails_markSpans, trails_escaped] using hline
    · exact absurd ⟨_, (List.append_cancel_left (hfence.symm.trans h)).symm⟩ hend

/-- A text in which no block on one line, told by `enclosed?`, has white space in front of the
closing fence. -/
def Snug (t : Text) : Prop := ∀ raw ∈ lines t, ∀ inner ∈ enclosed? raw, trails inner = false

instance (t : Text) : Decidable (Snug t) :=
  List.decidableBAll (fun raw : Text => ∀ inner ∈ enclosed? raw, trails inner = false) (lines t)

/-- The rendered lines of a text do not trail exactly when the text is `Snug`. -/
theorem trails_render (t : Text) : (∀ l ∈ render t, trails l = false) ↔ Snug t := by
  -- The state tells the markers only, and these never trail, so it may be any.
  have hlines : ∀ inside raws, (∀ l ∈ renderLines inside raws, trails l = false) ↔
      ∀ raw ∈ raws, ∀ inner ∈ enclosed? raw, trails inner = false := by
    intro inside raws
    induction raws generalizing inside with
    | nil => simp [renderLines]
    | cons raw raws ih =>
      rw [renderLines, List.forall_mem_append, trails_renderLine, ih, List.forall_mem_cons]
  rw [render]
  split
  · next hempty =>
    rw [List.isEmpty_iff.mp hempty]
    exact iff_of_true (by simp) (by decide)
  · exact hlines false (lines t)

end Comment

/-! ### Docstrings -/

/-- The `docstringLines` have a line that trails exactly when one of the texts, rendered alone, has
one. -/
theorem Operation.trails_docstringLines {op : Operation} {doc : Documentation} {ls : List Text}
    (h : docstringLines op doc = .ok ls) :
    (∀ l ∈ ls, trails l = false) ↔ ∀ t ∈ op.docTexts doc, Comment.Snug t := by
  -- The measure is one for a line that trails and zero for any other.
  let f : Text → Nat := fun l => (trails l).toNat
  have hzero : ∀ xs, total f xs = 0 ↔ ∀ l ∈ xs, trails l = false := by
    intro xs
    rw [total_eq_zero_iff]
    simp [f]
  have hinFront : ∀ front line : Text, line ≠ [] → f (front ++ line) = f line :=
    fun front _ hne => congrArg Bool.toNat (trails_append front hne)
  have hhead : ∀ front : Text, IsHead f (front ++ [':']) := fun front =>
    { alone := hinFront front [':'] (by simp)
      inFront := fun line hne => by
        rw [List.append_cons, hinFront _ _ hne] }
  have hcarries : op.Carries f :=
    { empty := rfl
      indented := hinFront indentUnit
      inputs := fun a _ => hhead _
      attributes := fun a _ => hhead _
      name := hhead ":param name"
      result := hhead ":return" }
  rw [← hzero, total_docstringLines hcarries h, hzero, List.forall_mem_flatMap]
  exact forall₂_congr fun t _ => Comment.trails_render t

/-! ### Statements of a method -/

/-- A line is `Trimmed` just when it is so without indentation. -/
theorem trimmed_render (level : Int) (line : Line) :
    Trimmed (line.render level) ↔ Trimmed line.text := by
  rw [Line.render, indented]
  split
  · next hempty => rw [List.isEmpty_iff.mp hempty]
  · next hne => exact trimmed_append_iff _ (by simpa using hne)

/-- Making a block `deeper` changes the end of no line. -/
theorem trimmed_deeper (block : List Line) :
    (∀ line ∈ deeper block, Trimmed line.text) ↔ ∀ line ∈ block, Trimmed line.text := by
  rw [deeper, List.forall_mem_map]

/-- The statements of `setAttribute` end in a bracket, under every binding. -/
theorem trimmed_setAttribute {table : TypeTable} {b : Binding} {operation : Text} {a : Attribute}
    {expr : Text} {block : List Line} (h : b.setAttribute table operation a expr = .ok block) :
    ∀ line ∈ block, Trimmed line.text := by
  -- Either binding closes the call at the end of the line.
  have hbracket : ∀ s : Text, Trimmed (s ++ [')']) := Trimmed.behind (by decide) (by decide)
  rw [Binding.setAttribute] at h
  split at h
  · cases h
  · obtain ⟨call, hcall, rfl⟩ := (map_eq_ok_iff _ _ _).mp h
    rw [List.forall_mem_singleton]
    cases b with
    | base => cases hcall
    | graph =>
      cases hcall
      exact hbracket _
    | typed =>
      rw [Binding.setterCall] at hcall
      split at hcall
      · cases hcall
      · cases hcall
        exact hbracket _

/-- The statements of `finishOperation` end in a bracket or, where they open a block, in a colon. -/
theorem trimmed_finishOperation {b : Binding} {operation : Text} {block : List Line}
    (h : b.finishOperation operation = .ok block) : ∀ line ∈ block, Trimmed line.text := by
  have hraise : Trimmed (Binding.raiseCreateError operation).text :=
    Trimmed.behind (by decide : Trimmed ", status.message)") (by decide) _
  have htexts : ∀ t ∈ finishingTexts, Trimmed t := by
    rw [finishingTexts]
    repeat rw [String.toList_ofList]
    decide
  exact Binding.forall_finishOperation htexts hraise h

namespace Operation

variable {table : TypeTable} {b : Binding} {op : Operation} {doc : Documentation}

/-- The statements of `settersBlock` are trimmed, guards included. -/
theorem trimmed_settersBlock {setters : List Line} (h : op.settersBlock table b = .ok setters) :
    ∀ line ∈ setters, Trimmed line.text := by
  simp only [settersBlock, bind_eq_ok_iff] at h
  obtain ⟨required, hrequired, optional, hoptional, h⟩ := h
  cases h
  rw [List.forall_mem_append]
  -- Guards end in a colon, and below them stands the same setter as for a required attribute.
  constructor <;> intro line hline <;> obtain ⟨block, hblock, hline⟩ := List.mem_flatten.mp hline
  · obtain ⟨a, -, hblock⟩ := exists_of_mem_mapM hrequired hblock
    exact trimmed_setAttribute hblock line hline
  · obtain ⟨a, -, hblock⟩ := exists_of_mem_mapM hoptional hblock
    obtain ⟨setter, hsetter, hblock⟩ := (bind_eq_ok_iff _ _ _).mp hblock
    cases hblock
    rcases List.mem_cons.mp hline with rfl | hline
    · exact Trimmed.behind (by decide : Trimmed " is not None:") (by decide) _
    · exact (trimmed_deeper setter).mpr (trimmed_setAttribute hsetter) line hline

/-- The statements of `outputsBlock` are trimmed, since none of their forms ends in white space. -/
theorem trimmed_outputsBlock : ∀ line ∈ op.outputsBlock, Trimmed line.text := by
  have hbind : ∀ a : Argument, ∀ line ∈ bindOutput a, Trimmed line.text := by
    intro a
    rw [bindOutput]
    split
    · simp only [List.forall_mem_cons]
      refine ⟨?_, ?_, by decide⟩
      · exact Trimmed.behind (by decide : Trimmed [')']) (by decide) _
      · exact Trimmed.behind (by decide : Trimmed " = [Output(op, _idx + i) for i in range(_n)]")
          (by decide) _
    · simp only [List.forall_mem_cons]
      exact ⟨Trimmed.behind (by decide : Trimmed " = Output(op, _idx)") (by decide) _, by decide⟩
  rw [outputsBlock]
  split
  · simp
  · rw [List.forall_mem_cons, List.forall_mem_flatMap]
    exact ⟨by decide, fun a _ => hbind a⟩

/-- The `returnLine` ends in the variable of an output or in a bracket. -/
theorem trimmed_returnLine (houtputs : ∀ a ∈ op.outputs, a.name ≠ [] ∧ Unspaced a.name) :
    Trimmed op.returnLine.text := by
  rw [returnLine]
  split
  · decide
  · next a hout =>
    obtain ⟨hne, hspaced⟩ := houtputs a (by simp [hout])
    have hvariable : Trimmed (parameter a.name) := fun c hc =>
      unspaced_parameter hspaced c (List.mem_of_getLast? hc)
    exact hvariable.behind (Naming.parameter_ne_nil hne) _
  · exact Trimmed.behind (by decide : Trimmed [')']) (by decide) _

/-- The `body` of a method, behind its docstring, is trimmed. -/
theorem trimmed_body {p : Pieces} (houtputs : ∀ a ∈ op.outputs, a.name ≠ [] ∧ Unspaced a.name)
    (h : op.pieces table b doc = .ok p) : ∀ line ∈ p.body op, Trimmed line.text := by
  obtain ⟨-, -, hsetters, hfinish⟩ := (pieces_eq_ok_iff table b op doc p).mp h
  have hdescription : ∀ line ∈ Binding.newDescription op.name, Trimmed line.text :=
    List.forall_mem_singleton.mpr (Trimmed.behind (by decide : Trimmed ", name))") (by decide) _)
  have hinput : ∀ a ∈ op.inputs, ∀ line ∈ Binding.addInput (parameter a.name) a.isList,
      Trimmed line.text := fun a _ =>
    List.forall_mem_singleton.mpr (Trimmed.behind (by decide : Trimmed [')']) (by decide) _)
  simp only [Pieces.body, List.forall_mem_append, List.forall_mem_flatMap]
  exact ⟨hdescription, hinput, by decide, trimmed_settersBlock hsetters,
    trimmed_finishOperation hfinish, trimmed_outputsBlock,
    List.forall_mem_singleton.mpr (trimmed_returnLine houtputs)⟩

/-- The lines of the `outputsClassBlock` are trimmed, its docstring ending in quotes. -/
theorem trimmed_outputsClassBlock : ∀ line ∈ op.outputsClassBlock, Trimmed line.text := by
  have hhint : ∀ a : Argument, Trimmed a.typeHint ∧ a.typeHint ≠ [] := by
    intro a
    rw [Argument.typeHint]
    cases a.isList <;> decide
  rw [outputsClassBlock]
  split
  · simp
  · simp
  · simp only [List.forall_mem_append, trimmed_deeper, List.forall_mem_singleton,
      List.forall_mem_cons, List.forall_mem_map]
    -- The class line, its docstring and the fields end in fixed words or in an annotation.
    refine ⟨Trimmed.behind (by decide : Trimmed "(NamedTuple):") (by decide) _, ?_, fun a _ => ?_⟩
    · exact Trimmed.behind (by decide : Trimmed "\x60.\"\"\"") (by decide) _
    · exact (hhint a).1.behind (hhint a).2 _

/-- The `block` of a method has a line that ends in white space exactly when its docstring has one.
-/
theorem trimmed_block {p : Pieces} (houtputs : ∀ a ∈ op.outputs, a.name ≠ [] ∧ Unspaced a.name)
    (h : op.pieces table b doc = .ok p) :
    (∀ line ∈ p.block op, Trimmed line.text) ↔ ∀ t ∈ op.docTexts doc, Comment.Snug t := by
  obtain ⟨-, hdocLines, -, -⟩ := (pieces_eq_ok_iff table b op doc p).mp h
  have hdef : Trimmed (op.defLine p.params).text :=
    Trimmed.behind (by decide : Trimmed [':']) (by decide) _
  rw [← trails_docstringLines hdocLines, ← trimmed_docstringBlock, Pieces.block]
  simp only [List.forall_mem_append, List.forall_mem_cons, trimmed_deeper]
  exact ⟨fun hall => hall.2.2.1,
    fun hdoc => ⟨trimmed_outputsClassBlock, hdef, hdoc, trimmed_body houtputs h⟩⟩

end Operation

/-! ### Modules -/

/-- A module of `generateModule` has a line that ends in white space in one case only: a text of the
documentation of some operation has a line that is a block of code, and white space stands in front
of its closing fence. -/
theorem trimmed_generateModule_iff {table : TypeTable} {b : Binding} {ops : List Operation}
    {docs : Text → Option Documentation} {warnings : List Warning} {m : GeneratedModule}
    (htable : table.IsPlain) (hnames : ∀ op ∈ ops, op.WellNamed)
    (houtputs : ∀ op ∈ ops, ∀ a ∈ op.outputs, a.name ≠ [] ∧ Unspaced a.name)
    (h : generateModule table b ops docs = (warnings, .ok m)) :
    (∀ line ∈ lines m.code, Trimmed line) ↔
      ∀ op ∈ surfaced table docs (sortedByName ops), ∀ doc ∈ docs op.name,
        ∀ t ∈ op.docTexts doc, Comment.Snug t := by
  obtain ⟨written, hops, -, hwritten, hlines⟩ := lines_of_generateModule htable hnames h
  -- The lines around the methods are fixed, so only those of the methods are in question.
  have himports : ∀ t ∈ b.importLines, Trimmed t := by
    rw [Binding.importLines, Binding.runtimeNames]
    repeat rw [String.toList_ofList]
    cases b <;> decide +kernel
  have hopening : ∀ line ∈ containerOpening, Trimmed line.text := by
    rw [containerOpening, containerDocstring]
    repeat rw [String.toList_ofList]
    decide
  have hclosing : ∀ line ∈ containerClosing, Trimmed line.text := by decide
  have hcode : (∀ line ∈ lines m.code, Trimmed line) ↔
      ∀ w ∈ written, ∀ line ∈ w.2.block w.1, Trimmed line.text := by
    simp only [hlines, moduleLines, writtenBlocks, List.forall_mem_append, List.forall_mem_map,
      trimmed_render, trimmed_deeper, ← List.flatMap_def, List.forall_mem_flatMap]
    exact ⟨fun hall => hall.1.1.2,
      fun hall => ⟨⟨⟨⟨himports, hopening⟩, hall⟩, hclosing⟩, by decide⟩⟩
  rw [hcode, ← hops, List.forall_mem_map]
  refine forall₂_congr fun w hw => ?_
  obtain ⟨doc, hdoc, hpieces⟩ := hwritten w hw
  have hmem : w.1 ∈ written.map Prod.fst := List.mem_map_of_mem hw
  rw [hops] at hmem
  rw [Operation.trimmed_block (houtputs w.1 (mem_of_mem_surfaced table docs hmem)) hpieces]
  simp [hdoc]

namespace Sample

/-- An operation with one output. -/
def pad : Operation where
  name := "Pad"
  outputs := [{ name := "padded" }]

/-- Documentation for `pad` whose summary is a block of code on one line, with the given text in the
block. -/
def padDocs (code name : Text) : Option Documentation :=
  some { name := name, summary := "\x60\x60\x60" ++ code ++ "\x60\x60\x60" }

end Sample

/-- In the documentation of `pad`, a block without white space in front of the closing fence leaves
none at the end of a line. -/
theorem trimmed_generateModule_pad :
    ∃ m, generateModule TypeTable.standard .typed [Sample.pad] (Sample.padDocs "x") =
        ([], .ok m) ∧
      m.report.emitted = ["Pad".toList] ∧ ∀ line ∈ lines m.code, Trimmed line := by
  have hsorted : sortedByName [Sample.pad] = [Sample.pad] := by simp [sortedByName]
  obtain ⟨m, hrun, hemitted⟩ : ∃ m,
      generateModule TypeTable.standard .typed [Sample.pad] (Sample.padDocs "x") = ([], .ok m) ∧
        m.report.emitted = ["Pad".toList] := by
    rw [generateModule, hsorted]
    exact ⟨_, rfl, rfl⟩
  have hnames : ∀ op ∈ [Sample.pad], op.WellNamed := by
    intro op hop
    rw [List.mem_singleton.mp hop]
    exact ⟨by decide, by decide, by decide, by decide⟩
  have houtputs : ∀ op ∈ [Sample.pad], ∀ a ∈ op.outputs, a.name ≠ [] ∧ Unspaced a.name := by decide
  have hsurfaced : surfaced TypeTable.standard (Sample.padDocs "x") (sortedByName [Sample.pad]) =
      [Sample.pad] := by
    rw [hsorted]
    rfl
  -- The two fixed notes are literals with a name between or behind them, looked at piece by piece.
  have hname : Comment.Snug (nameNote Sample.pad.name) :=
    of_literal (fun t => Comment.Snug (t ++ Sample.pad.name ++ "'.".toList)) (by decide)
  have hfetch : Comment.Snug singleFetchNote :=
    of_literal (fun t => Comment.Snug
      (t ++ "by fetching the Operation property from the result.".toList))
      (of_literal (fun t => Comment.Snug (_ ++ t)) (by decide))
  have htexts : ∀ doc ∈ Sample.padDocs "x" Sample.pad.name, ∀ t ∈ Sample.pad.docTexts doc,
      Comment.Snug t := by
    intro doc hdoc
    cases hdoc
    refine List.forall_mem_append.mpr ⟨List.forall_mem_append.mpr
      ⟨by decide, List.forall_mem_singleton.mpr hname⟩, ?_⟩
    exact List.forall_mem_cons.mpr ⟨by decide, List.forall_mem_singleton.mpr hfetch⟩
  refine ⟨m, hrun, hemitted, ?_⟩
  rw [trimmed_generateModule_iff TypeTable.standard_isPlain hnames houtputs hrun, hsurfaced]
  exact List.forall_mem_singleton.mpr htexts

/-- In the documentation of `pad`, a block of a single space becomes a line of nothing but white
space, its indentation. -/
theorem not_trimmed_generateModule_pad :
    ∃ m, generateModule TypeTable.standard .typed [Sample.pad] (Sample.padDocs " ") =
        ([], .ok m) ∧
      ∃ line ∈ lines m.code, line = fill 9 ' ' ∧ ¬Trimmed line := by
  have hsorted : sortedByName [Sample.pad] = [Sample.pad] := by simp [sortedByName]
  rw [generateModule, hsorted]
  refine ⟨_, rfl, fill 9 ' ', ?_, rfl, by decide⟩
  rw [moduleCode, moduleLines, containerOpening, containerDocstring, Binding.importLines,
    Binding.runtimeNames]
  repeat rw [String.toList_ofList]
  decide +kernel

end TypedOps
