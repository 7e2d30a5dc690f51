import TypedOps.Proofs.Emit.DocLines
import TypedOps.Proofs.Value

/-!
# `TypedOps.Proofs.Emit.Untripled`: documentation without triple quotes

Where no text that is written for an operation holds a triple quote, no line of its
docstring does before it is escaped. Rendering rewrites angle brackets, ampersands
and backticks and never joins two runs of quotes; notes put their texts behind a
space or a backtick. `tripleQuotes_of_rendered` goes through the texts a docstring is
rendered from, one case for each.
-/

set_option autoImplicit false

namespace TypedOps

open Naming (parameter)
open Text

/-! ### Rendering -/

namespace Comment

/-- The number of triple quotes in a text is kept by `markSpans`, for markers have no quotes. -/
theorem tripleQuotes_markSpans (t : Text) (inside : Bool) :
    tripleQuotes (markSpans inside t) = tripleQuotes t := by
  have hrun : ∀ n inside s, markSpans inside (fill n '"' ++ s) =
      fill n '"' ++ markSpans inside s := by
    intro n inside s
    induction n with
    | zero => rfl
    | succ n ih =>
      show markSpans inside ('"' :: (fill n '"' ++ s)) = '"' :: (fill n '"' ++ markSpans inside s)
      rw [markSpans, if_neg (by decide), ih]
  -- Inside or outside a span, a run of quotes is copied as it stands.
  induction t using runInduction generalizing inside with
  | last n =>
    have hall := hrun n inside []
    rw [List.append_nil, markSpans, List.append_nil] at hall
    rw [hall]
  | run n c t hc ih =>
    rw [hrun, markSpans, tripleQuotes_append_cons _ hc]
    split
    · -- A marker begins with an angle bracket and holds no quote.
      obtain ⟨rest, hmarker, hfree⟩ : ∃ rest,
          (if inside then inlineClose else inlineOpen) = '<' :: rest ∧ '"' ∉ rest := by
        cases inside <;> exact ⟨_, rfl, by decide⟩
      rw [hmarker, List.cons_append, tripleQuotes_append_cons _ (by decide),
        tripleQuotes_append_of_not_mem hfree, ih]
    · rw [tripleQuotes_append_cons _ hc, ih]

/-- An `escaped` text has as many triple quotes as the text, for entities have no quotes. -/
theorem tripleQuotes_escaped (t : Text) : tripleQuotes (escaped t) = tripleQuotes t := by
  refine tripleQuotes_flatMap (by decide) (fun c hc => ?_) t
  rw [escapedChar]
  split
  · decide
  · split
    · decide
    · split
      · decide
      · simpa using Ne.symm hc

/-- A line of `render` holds no triple quote if the text holds none. -/
theorem tripleQuotes_of_mem_render {t line : Text} (ht : tripleQuotes t = 0)
    (h : line ∈ render t) : tripleQuotes line = 0 := by
  obtain ⟨raw, hraw, inside, hline⟩ := exists_of_mem_render h
  have hstripped : tripleQuotes (strip raw) = 0 :=
    tripleQuotes_of_isInfix ((isInfix_strip raw).trans (isInfix_of_mem_lines hraw)) ht
  have hmarker : ∀ open?, tripleQuotes (fenceMarker open?) = 0 := by decide
  rcases mem_renderLine hline with ⟨open?, rfl⟩ | ⟨part, hpart, rfl⟩
  · exact hmarker open?
  · rw [tripleQuotes_markSpans]
    refine tripleQuotes_of_isInfix hpart ?_
    rw [tripleQuotes_escaped, hstripped]

end Comment

/-! ### Texts without triple quotes -/

/-- Documentation in which every text is `Untripled`. -/
structure Documentation.Untripled (doc : Documentation) : Prop where
  summary : Text.Untripled doc.summary
  description : Text.Untripled doc.description
  inputs : ∀ entry ∈ doc.inputs, Text.Untripled entry.description
  outputs : ∀ entry ∈ doc.outputs, Text.Untripled entry.description
  attributes : ∀ entry ∈ doc.attributes, Text.Untripled entry.description
  deprecationMessage : Text.Untripled doc.deprecationMessage

/-- An operation in which neither the explanation of its deprecation nor a string in a default holds
a triple quote (`Untripled`). -/
structure Operation.Untripled (op : Operation) : Prop where
  deprecationExplanation : Text.Untripled op.deprecationExplanation
  defaults : ∀ a ∈ op.attributes, ∀ t ∈ a.defaultValue.strings, Text.Untripled t

/-- What `describe` finds is the description of one of the entries, or empty, and holds no triple
quote in either case. -/
theorem tripleQuotes_describe {entries : List NamedDescription}
    (h : ∀ entry ∈ entries, Text.Untripled entry.description) (name : Text) :
    tripleQuotes (describe entries name) = 0 := by
  rw [describe]
  cases hfind : entries.find? (·.name == name) with
  | none => rfl
  | some entry => exact (untripled_iff _).mp (h entry (List.mem_of_find?_eq_some hfind))

/-- The `fixedNotes` are plain, and so are without quotes. -/
theorem plain_of_mem_fixedNotes : ∀ note ∈ fixedNotes, Plain note := by
  simp only [fixedNotes, List.forall_mem_cons]
  refine ⟨of_literal Plain ?_, of_literal Plain ?_,
    (plain_append _ _).mpr ⟨of_literal Plain ?_, of_literal Plain ?_⟩, of_literal Plain ?_,
    (plain_append _ _).mpr ⟨of_literal Plain ?_, of_literal Plain ?_⟩, nofun⟩ <;> decide

namespace Operation

variable {op : Operation} {doc : Documentation}

/-- The `deprecationNote?` holds no triple quote: it is a plain note, with a message behind it at
most. -/
theorem tripleQuotes_deprecationNote (hop : op.Untripled) (hdoc : doc.Untripled) {note : Text}
    (h : deprecationNote? op doc = some note) : tripleQuotes note = 0 := by
  have hmessage : tripleQuotes (op.deprecationText doc) = 0 := by
    rw [deprecationText]
    split
    · exact (untripled_iff _).mp hop.deprecationExplanation
    · exact (untripled_iff _).mp hdoc.deprecationMessage
  have hplain : Plain op.deprecationHeading := by
    rw [deprecationHeading]
    split
    · simp [plain_ofInt]
    · decide
  rw [deprecationNote?_eq] at h
  split at h
  · cases h
  · cases h
    -- Heading and message are joined by a blank, so no quotes come together.
    split
    · exact hplain.tripleQuotes
    · rw [tripleQuotes_append_cons _ (by decide), hplain.tripleQuotes, hmessage]

/-- No text that is `Rendered` for a docstring holds a triple quote, if the operation and its
documentation are untripled. -/
theorem tripleQuotes_of_rendered (hnames : op.WellNamed) (hop : op.Untripled)
    (hdoc : doc.Untripled) {t : Text} (h : Rendered op doc t) : tripleQuotes t = 0 := by
  have hback : Comment.backtick ≠ '"' := by decide
  cases h with
  | summary => exact (untripled_iff _).mp hdoc.summary
  | description => exact (untripled_iff _).mp hdoc.description
  | deprecation hnote => exact tripleQuotes_deprecationNote hop hdoc hnote
  | inputText name => exact tripleQuotes_describe hdoc.inputs name
  | attributeText name => exact tripleQuotes_describe hdoc.attributes name
  | outputText name => exact tripleQuotes_describe hdoc.outputs name
  | tupleItem ha =>
    -- The colon separates the name from the description.
    have hname := (plain_parameter (hnames.outputs _ ha).plain).tripleQuotes
    refine tripleQuotes_of_isInfix (isPrefix_trimEnd isBlank _).isInfix ?_
    show tripleQuotes (parameter _ ++ ':' :: [' '] ++ _) = 0
    rw [List.append_assoc, List.cons_append, tripleQuotes_append_cons _ (by decide),
      hname, List.singleton_append, tripleQuotes_cons (by decide),
      tripleQuotes_describe hdoc.outputs]
  | default ha hshown =>
    -- The backticks separate what is shown from the words around it.
    have hstrings : ∀ t ∈ _, tripleQuotes t = 0 := fun t ht =>
      (untripled_iff t).mp (hop.defaults _ ha t ht)
    have hshown := Value.tripleQuotes_shownDefault hstrings hshown
    rw [tripleQuotes_append_cons _ hback, tripleQuotes_append_cons _ hback, hshown]
    decide
  | name =>
    have hbehind : ∀ front : Text, Plain front → Plain (front ++ op.name ++ "'.") := by
      intro front h
      simp [h, hnames.name.plain]
    exact (hbehind _ (of_literal Plain (by decide))).tripleQuotes
  | fixed hnote => exact (plain_of_mem_fixedNotes _ hnote).tripleQuotes

/-- No line of `docstringLines` holds a triple quote, so every docstring of such a module is left as
it is. -/
theorem tripleQuotes_of_mem_docstringLines (hnames : op.WellNamed) (hop : op.Untripled)
    (hdoc : doc.Untripled) {ls : List Text} (h : docstringLines op doc = .ok ls) :
    ∀ l ∈ ls, tripleQuotes l = 0 := by
  have hhead : ∀ name, Plain name → tripleQuotes (paramHead (parameter name)) = 0 :=
    fun name hname => (plain_paramHead hname).tripleQuotes
  -- A space between two lines is no quote, so joining them makes no triple.
  refine forall_docstringLines (fun a ha => hhead a.name (hnames.inputs a ha).plain)
    (fun a ha => hhead a.name (hnames.attributes a ha).plain) (fun t ht => ht.tripleQuotes) ?_
    (fun t ht l hl => Comment.tripleQuotes_of_mem_render
      (tripleQuotes_of_rendered hnames hop hdoc ht) hl) h
  intro s t hs ht
  rw [tripleQuotes_append_cons _ (by decide), hs, ht]

end Operation

end TypedOps
