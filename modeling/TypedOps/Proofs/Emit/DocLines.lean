import TypedOps.Proofs.Emit.CodeLines
import TypedOps.Proofs.Emit.Escape

/-!
# `TypedOps.Proofs.Emit.DocLines`: where the lines of a docstring come from

A docstring is made of rendered texts. `Operation.Rendered` lists them: the texts of
the documentation, the notes on deprecation and defaults, and a few fixed notes. Its
lines are the rendered lines of these texts, some of them behind the head of a field
or behind an indentation. `forall_docstringLines` says so as a principle: what holds
of plain lines and of rendered ones, and still holds when two are joined by a space,
holds of every line of a docstring.

Rendering cuts a text at its line feeds, so each line of a docstring stands on one
line whatever the documentation is (`oneLine_of_mem_docstringLines`).
-/

set_option autoImplicit false

namespace TypedOps

open Naming (parameter)
open Text

/-! ### Rendered lines -/

namespace Comment

/-- Marking spans with `markSpans` adds no line feed. -/
theorem oneLine_markSpans {t : Text} (h : OneLine t) (inside : Bool) :
    OneLine (markSpans inside t) := by
  induction t generalizing inside with
  | nil => simp [markSpans, OneLine]
  | cons c t ih =>
    simp only [OneLine, List.mem_cons, not_or] at h ih ⊢
    have ih := ih h.2
    rw [markSpans]
    split
    · have hmarker : '\n' ∉ (if inside then inlineClose else inlineOpen) := by
        cases inside <;> decide
      simp [hmarker, ih]
    · simp [h.1, ih]

/-- Escaping with `escaped` adds no line feed. -/
theorem oneLine_escaped {t : Text} (h : OneLine t) : OneLine (escaped t) := by
  intro hmem
  obtain ⟨c, hc, hfeed⟩ := List.mem_flatMap.mp hmem
  have hsame : '\n' = c := by
    rw [escapedChar] at hfeed
    split at hfeed
    · exact absurd hfeed (by decide)
    · split at hfeed
      · exact absurd hfeed (by decide)
      · split at hfeed
        · exact absurd hfeed (by decide)
        · simpa using hfeed
  exact h (hsame ▸ hc)

/-- A contiguous part of a text has `OneLine` if the text has it. -/
theorem oneLine_of_isInfix {s t : Text} (h : s <:+: t) (ht : OneLine t) : OneLine s :=
  fun hmem => ht (h.subset hmem)

/-- What `renderLine` makes of a line is what is left of it behind fences, between the markers of
the blocks that they open and close, or a marker alone. -/
theorem renderLine_cases (inside : Bool) (raw : Text) :
    ∃ part, part <:+: escaped (strip raw) ∧
      (renderLine inside raw = ([markSpans false part], inside) ∨
        renderLine inside raw = ([fenceMarker inside], !inside) ∨
        renderLine inside raw =
          ([fenceMarker inside, markSpans false part, fenceMarker !inside], inside) ∨
        renderLine inside raw = ([fenceMarker inside, markSpans false part], !inside)) := by
  simp only [renderLine]
  -- The cases follow those of `renderLine`, and what is marked lies behind the opening fence in all
  -- of them.
  split
  · exact ⟨_, List.infix_rfl, .inl rfl⟩
  · next rest hrest =>
    have hpart : rest <:+: escaped (strip raw) := by
      rw [eq_append_of_afterStart? hrest]
      exact (List.suffix_append _ _).isInfix
    split
    · exact ⟨rest, hpart, .inr (.inl rfl)⟩
    · split
      · exact ⟨dropEnd rest fence.length, (List.take_prefix _ _).isInfix.trans hpart,
          .inr (.inr (.inl rfl))⟩
      · exact ⟨rest, hpart, .inr (.inr (.inr rfl))⟩

/-- A line of `renderLine` is a marker of code, or comes from a part of an escaped line by marking
spans. -/
theorem mem_renderLine {inside : Bool} {raw line : Text}
    (h : line ∈ (renderLine inside raw).1) :
    (∃ open?, line = fenceMarker open?) ∨
      ∃ part, part <:+: escaped (strip raw) ∧ line = markSpans false part := by
  obtain ⟨part, hpart, hcase⟩ := renderLine_cases inside raw
  have hsubset : (renderLine inside raw).1 ⊆
      [fenceMarker inside, markSpans false part, fenceMarker !inside] := by
    rcases hcase with hcase | hcase | hcase | hcase <;> simp [hcase]
  have hmem := hsubset h
  simp only [List.mem_cons, List.not_mem_nil, or_false] at hmem
  rcases hmem with hmem | hmem | hmem
  · exact .inl ⟨_, hmem⟩
  · exact .inr ⟨part, hpart, hmem⟩
  · exact .inl ⟨_, hmem⟩

/-- Every line of `render t` is rendered from a single line of `t`, in one of the two states. -/
theorem exists_of_mem_render {t line : Text} (h : line ∈ render t) :
    ∃ raw ∈ lines t, ∃ inside, line ∈ (renderLine inside raw).1 := by
  -- Whether a block of code is open goes from line to line, so the lemma is about any
  -- such state.
  have hlines : ∀ raws inside, line ∈ renderLines inside raws →
      ∃ raw ∈ raws, ∃ inside, line ∈ (renderLine inside raw).1 := by
    intro raws
    induction raws with
    | nil =>
      intro inside h
      cases h
    | cons raw raws ih =>
      intro inside h
      rw [renderLines] at h
      rcases List.mem_append.mp h with h | h
      · exact ⟨raw, List.mem_cons_self, inside, h⟩
      · obtain ⟨raw', hraw', h⟩ := ih _ h
        exact ⟨raw', List.mem_cons_of_mem raw hraw', h⟩
  rw [render] at h
  split at h
  · cases h
  · exact hlines _ _ h

/-- Every line of `render t` stands on one line, since neither escaping nor marking adds a line
feed. -/
theorem oneLine_of_mem_render {t line : Text} (h : line ∈ render t) : OneLine line := by
  obtain ⟨raw, hraw, inside, hline⟩ := exists_of_mem_render h
  have hescaped : OneLine (escaped (strip raw)) :=
    oneLine_escaped (oneLine_of_isInfix (isInfix_strip raw) (oneLine_of_mem_lines hraw))
  have hmarker : ∀ open?, '\n' ∉ fenceMarker open? := by decide
  rcases mem_renderLine hline with ⟨open?, rfl⟩ | ⟨part, hpart, rfl⟩
  · exact hmarker open?
  · exact oneLine_markSpans (oneLine_of_isInfix hpart hescaped) false

end Comment

/-! ### The texts of a docstring -/

/-- The notes in `docstringLines` whose text does not depend on the operation. -/
def fixedNotes : List Text :=
  ["Optional argument.", noOutputNote, singleFetchNote, tupleIntro, tupleFetchNote]

namespace Operation

/-- The message on the deprecation of an operation: that of the `Documentation`, or else that of the
signature. -/
def deprecationText (op : Operation) (doc : Documentation) : Text :=
  if doc.deprecationMessage.isEmpty then op.deprecationExplanation else doc.deprecationMessage

/-- What `deprecationNote?` puts in front of the message on deprecation, with the version if there
is one. -/
def deprecationHeading (op : Operation) : Text :=
  if op.deprecationVersion != 0 then
    "Deprecated at graph version " ++ Text.ofInt op.deprecationVersion ++ "."
  else "Deprecated."

/-- There is a `deprecationNote?` if there is a version or a message, and it is the heading with the
message behind it. -/
theorem deprecationNote?_eq (op : Operation) (doc : Documentation) :
    deprecationNote? op doc =
      if op.deprecationVersion = 0 ∧ op.deprecationText doc = [] then none
      else some (if op.deprecationText doc = [] then op.deprecationHeading
        else op.deprecationHeading ++ ' ' :: op.deprecationText doc) := by
  have hnote : deprecationNote? op doc =
      Option.map (fun note => if (op.deprecationText doc).isEmpty then note
          else note ++ ' ' :: op.deprecationText doc)
        (if op.deprecationVersion != 0 then
          some ("Deprecated at graph version " ++ Text.ofInt op.deprecationVersion ++ ".")
        else if (op.deprecationText doc).isEmpty then none else some "Deprecated.") := rfl
  rw [hnote, deprecationHeading]
  -- What the heading says does not matter.
  generalize ("Deprecated at graph version " ++ Text.ofInt op.deprecationVersion ++ "." : Text) =
    dated
  generalize ("Deprecated." : Text) = plain
  by_cases hversion : op.deprecationVersion = 0 <;>
    by_cases hempty : op.deprecationText doc = [] <;> simp [hversion, hempty]

/-- The texts that an operation's docstring is rendered from. All other parts of `docstringLines`
are fixed or made of names. -/
inductive Rendered (op : Operation) (doc : Documentation) : Text → Prop where
  | summary : Rendered op doc doc.summary
  | description : Rendered op doc doc.description
  | deprecation {note : Text} (h : deprecationNote? op doc = some note) : Rendered op doc note
  | inputText (name : Text) : Rendered op doc (describe doc.inputs name)
  | attributeText (name : Text) : Rendered op doc (describe doc.attributes name)
  | outputText (name : Text) : Rendered op doc (describe doc.outputs name)
  | tupleItem {a : Argument} (ha : a ∈ op.outputs) :
    Rendered op doc (stripEnd (parameter a.name ++ ": " ++ describe doc.outputs a.name))
  | default {a : Attribute} {shown : Text} (ha : a ∈ op.attributes)
    (h : a.defaultValue.shownDefault a.tag = .ok shown) :
    Rendered op doc ("Defaults to " ++ Comment.backtick :: shown ++
      Comment.backtick :: ".".toList)
  | name : Rendered op doc (nameNote op.name)
  | fixed {note : Text} (h : note ∈ fixedNotes) : Rendered op doc note

/-- The `paramHead` of the field for a plain name is plain. -/
theorem plain_paramHead {name : Text} (h : Plain name) : Plain (paramHead (parameter name)) := by
  unfold paramHead
  simp [plain_parameter h]

variable {op : Operation} {doc : Documentation} {Q : Text → Prop}

/-- A property of lines that joining by a space keeps holds of the lines of a `docField`, if it
holds of the head and of the lines put into it. -/
theorem forall_docField (hplain : ∀ t, Plain t → Q t)
    (hspaced : ∀ s t, Q s → Q t → Q (s ++ ' ' :: t)) {head : Text} {ls : List Text}
    (hhead : Q head) (hls : ∀ l ∈ ls, Q l) : ∀ l ∈ docField head ls, Q l := by
  cases ls with
  | nil => simpa [docField] using hhead
  | cons first rest =>
    intro l hl
    rw [docField] at hl
    -- The first line stands behind the head, each further one behind the indentation.
    rcases List.mem_cons.mp hl with rfl | hl
    · split
      · exact hhead
      · exact hspaced head first hhead (hls first List.mem_cons_self)
    · obtain ⟨line, hline, rfl⟩ := List.mem_map.mp hl
      split
      · exact hplain [] plain_nil
      · exact hspaced "   " line (hplain _ (by decide)) (hls line (List.mem_cons_of_mem _ hline))

/-- A property of all lines that are `Rendered` for the operation holds of the `returnLines`, which
say what its method returns. -/
theorem forall_returnLines
    (hrender : ∀ t, Rendered op doc t → ∀ l ∈ Comment.render t, Q l) :
    ∀ l ∈ returnLines op doc, Q l := by
  have hfixed : ∀ note ∈ fixedNotes, ∀ l ∈ Comment.render note, Q l := fun note h =>
    hrender note (.fixed h)
  rw [returnLines]
  split
  · exact hfixed noOutputNote (.tail _ (.head _))
  · simp only [List.forall_mem_append]
    exact ⟨hrender _ (.outputText _), hfixed singleFetchNote (.tail _ (.tail _ (.head _)))⟩
  · simp only [List.forall_mem_append]
    refine ⟨⟨hfixed tupleIntro (.tail _ (.tail _ (.tail _ (.head _)))), fun l hl => ?_⟩,
      hfixed tupleFetchNote (.tail _ (.tail _ (.tail _ (.tail _ (.head _)))))⟩
    obtain ⟨a, ha, hl⟩ := List.mem_flatMap.mp hl
    exact hrender _ (.tupleItem ha) l hl

/-- A property of all lines that are `Rendered` for the operation holds of the `defaultLines` of its
attributes. -/
theorem forall_defaultLines
    (hrender : ∀ t, Rendered op doc t → ∀ l ∈ Comment.render t, Q l) {a : Attribute}
    (ha : a ∈ op.attributes) {ls : List Text} (h : defaultLines a = .ok ls) : ∀ l ∈ ls, Q l := by
  rw [defaultLines] at h
  split at h
  · cases h
    simp
  · obtain ⟨shown, hshown, rfl⟩ := (map_eq_ok_iff _ _ _).mp h
    exact hrender _ (.default ha hshown)

/-- The induction principle for `docstringLines`: a property of the heads of the fields, of plain
lines and of rendered ones, which joining by a space keeps, holds of every line. -/
theorem forall_docstringLines (hinputs : ∀ a ∈ op.inputs, Q (paramHead (parameter a.name)))
    (hattributes : ∀ a ∈ op.attributes, Q (paramHead (parameter a.name)))
    (hplain : ∀ t, Plain t → Q t) (hspaced : ∀ s t, Q s → Q t → Q (s ++ ' ' :: t))
    (hrender : ∀ t, Rendered op doc t → ∀ l ∈ Comment.render t, Q l) {ls : List Text}
    (h : docstringLines op doc = .ok ls) : ∀ l ∈ ls, Q l := by
  obtain ⟨optional, hoptional, h⟩ := (bind_eq_ok_iff _ _ _).mp h
  cases h
  have hempty : Q [] := hplain [] plain_nil
  have hparagraph : ∀ ls : List Text, (∀ l ∈ ls, Q l) → ∀ l ∈ paragraph ls, Q l := by
    intro ls hls
    rw [paragraph]
    split
    · simp
    · simpa using ⟨hempty, hls⟩
  have hfield : ∀ name, Q (paramHead (parameter name)) → ∀ ls : List Text, (∀ l ∈ ls, Q l) →
      ∀ l ∈ docField (paramHead (parameter name)) ls, Q l :=
    fun name hhead ls hls => forall_docField hplain hspaced hhead hls
  have hattribute : ∀ a ∈ op.givenAttributes, a ∈ op.attributes := fun a ha =>
    (List.mem_filter.mp ha).1
  -- One goal for each part of the docstring, in the order in which they stand: summary,
  -- description, deprecation, the empty line, inputs, required and optional attributes,
  -- the name and the result.
  simp only [List.forall_mem_append]
  refine ⟨⟨⟨⟨⟨⟨⟨⟨?_, ?_⟩, ?_⟩, ?_⟩, ?_⟩, ?_⟩, ?_⟩, ?_⟩, ?_⟩
  · exact hrender _ .summary
  · exact hparagraph _ (hrender _ .description)
  · refine hparagraph _ ?_
    cases hnote : deprecationNote? op doc with
    | none => simp
    | some note => exact hrender note (.deprecation hnote)
  · simpa using hempty
  · intro l hl
    obtain ⟨a, ha, hl⟩ := List.mem_flatMap.mp hl
    exact hfield a.name (hinputs a ha) _ (hrender _ (.inputText a.name)) l hl
  · intro l hl
    obtain ⟨a, ha, hl⟩ := List.mem_flatMap.mp hl
    have ha := hattribute a (List.mem_filter.mp ha).1
    exact hfield a.name (hattributes a ha) _ (hrender _ (.attributeText a.name)) l hl
  · intro l hl
    obtain ⟨field, hmem, hl⟩ := List.mem_flatten.mp hl
    obtain ⟨a, ha, hmade⟩ := exists_of_mem_mapM hoptional hmem
    have ha := hattribute a (List.mem_filter.mp ha).1
    obtain ⟨onDefault, hdefault, rfl⟩ := (map_eq_ok_iff _ _ _).mp hmade
    refine hfield a.name (hattributes a ha) _ ?_ l hl
    simp only [List.forall_mem_append]
    exact ⟨⟨hrender _ (.fixed (.head _)), hrender _ (.attributeText a.name)⟩,
      forall_defaultLines hrender ha hdefault⟩
  · exact forall_docField hplain hspaced (hplain _ (by decide)) (hrender _ .name)
  · exact forall_docField hplain hspaced (hplain _ (by decide)) (forall_returnLines hrender)

/-- Every line of `docstringLines` stands on one line, where the heads of its fields do. -/
theorem oneLine_of_mem_docstringLines
    (hinputs : ∀ a ∈ op.inputs, OneLine (paramHead (parameter a.name)))
    (hattributes : ∀ a ∈ op.attributes, OneLine (paramHead (parameter a.name))) {ls : List Text}
    (h : docstringLines op doc = .ok ls) : ∀ l ∈ ls, OneLine l := by
  refine forall_docstringLines hinputs hattributes (fun t ht => ht.oneLine) ?_
    (fun t _ l hl => Comment.oneLine_of_mem_render hl) h
  intro s t hs ht
  simp only [OneLine] at hs ht ⊢
  simp [hs, ht]

end Operation

end TypedOps
