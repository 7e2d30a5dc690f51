import Mathlib.Data.List.Infix
import TypedOps.Proofs.Emit.DocLines
import TypedOps.Proofs.Emit.ParameterNames
import TypedOps.Proofs.Script.Syntax

/-!
# `TypedOps.Proofs.Emit.Fields`: the fields of a docstring

`heads` reads the fields of parameters off the lines of a docstring: those that begin with the
head of one. Inside a field every line but the first is indented, so only the texts in front of
the fields can bring in another head, and `HeadFree` says that they hold none.

* `Comment.isInfix_of_isPrefix_render`: rendering brings in no beginning of a line that is not in
  the text, apart from the marks that it writes itself.
* `Operation.heads_docstringLines`: so the fields of a docstring are those of the inputs, of the
  attributes that a caller gives and of the name, in the order of the signature.
-/

set_option autoImplicit false

namespace TypedOps

open Naming (parameter)
open Text

/-! ### What rendering brings in -/

/-- What begins with a code point that the front `s` lacks, and stands in `s ++ t`, stands in `t`.
-/
theorem Text.isInfix_of_append {c : Char} {p s t : Text} (hs : c ∉ s)
    (h : c :: p <:+: s ++ t) : c :: p <:+: t := by
  induction s with
  | nil => exact h
  | cons d s ih =>
    simp only [List.mem_cons, not_or] at hs
    rw [List.cons_append, List.infix_cons_iff, List.cons_prefix_cons] at h
    rcases h with ⟨hd, -⟩ | h
    · exact absurd hd hs.1
    · exact ih hs.2 h

namespace Comment

/-- Nothing is put in front of a text by `markSpans` but an angle bracket, so a front without one
was there before. -/
theorem isPrefix_of_markSpans {p t : Text} {inside : Bool} (hp : '<' ∉ p)
    (h : p <+: markSpans inside t) : p <+: t := by
  -- The induction is on the front, for every text: each code point of the front is also one of the
  -- text.
  induction p generalizing t with
  | nil => exact List.nil_prefix
  | cons c p ih =>
    simp only [List.mem_cons, not_or] at hp
    cases t with
    | nil => simp [markSpans] at h
    | cons d t =>
      rw [markSpans] at h
      split at h
      · -- Both markers begin with an angle bracket.
        have hmarker : ∃ rest, (if inside then inlineClose else inlineOpen) = '<' :: rest := by
          cases inside <;> exact ⟨_, rfl⟩
        obtain ⟨rest, hrest⟩ := hmarker
        rw [hrest, List.cons_append, List.cons_prefix_cons] at h
        exact absurd h.1.symm hp.1
      · rw [List.cons_prefix_cons] at h ⊢
        exact ⟨h.1, ih hp.2 h.2⟩

/-- A code point stays, or `escapedChar` writes it as one of three entities. -/
theorem escapedChar_cases (c : Char) :
    escapedChar c = [c] ∨
      escapedChar c ∈ (["&amp;".toList, "&lt;".toList, "&gt;".toList] : List Text) := by
  rw [escapedChar]
  split
  · exact .inr (by decide)
  · split
    · exact .inr (by decide)
    · split
      · exact .inr (by decide)
      · exact .inl rfl

/-- What is `escaped` has nothing put in front of it but an ampersand, so a front without one was
there before. -/
theorem isPrefix_of_escaped {p t : Text} (hp : '&' ∉ p) (h : p <+: escaped t) : p <+: t := by
  have hentity : ∀ e ∈ (["&amp;".toList, "&lt;".toList, "&gt;".toList] : List Text),
      e.head? = some '&' := by decide
  induction p generalizing t with
  | nil => exact List.nil_prefix
  | cons c p ih =>
    simp only [List.mem_cons, not_or] at hp
    cases t with
    | nil => simp [escaped] at h
    | cons d t =>
      rw [escaped, List.flatMap_cons] at h
      rcases escapedChar_cases d with hstays | hmem
      · rw [hstays, List.singleton_append, List.cons_prefix_cons] at h
        rw [List.cons_prefix_cons]
        exact ⟨h.1, ih hp.2 h.2⟩
      -- An entity begins with an ampersand, which the front does not hold.
      · have hhead := hentity _ hmem
        cases hchar : escapedChar d with
        | nil => simp [hchar] at hhead
        | cons e rest =>
          rw [hchar, List.cons_append, List.cons_prefix_cons] at h
          rw [hchar, List.head?_cons, Option.some.injEq] at hhead
          exact absurd (h.1.trans hhead).symm hp.1

/-- The code points of the three entities that stand for marks in rendered text, taken together. -/
def entityMarks : Text := "&amp;&lt;&gt;"

/-- What begins with a code point of no entity, and holds no ampersand, stands in a text where it
stands in the `escaped` one. -/
theorem isInfix_of_escaped {c : Char} {p t : Text} (hc : c ∉ entityMarks) (hp : '&' ∉ p)
    (h : c :: p <:+: escaped t) : c :: p <:+: t := by
  have hentity : ∀ e ∈ (["&amp;".toList, "&lt;".toList, "&gt;".toList] : List Text),
      (e.all fun d => entityMarks.contains d) = true := by decide
  induction t with
  | nil => simp [escaped] at h
  | cons d t ih =>
    rw [escaped, List.flatMap_cons] at h
    rcases escapedChar_cases d with hstays | hmem
    · rw [hstays, List.singleton_append, List.infix_cons_iff, List.cons_prefix_cons] at h
      rcases h with ⟨hd, hrest⟩ | h
      · refine List.IsPrefix.isInfix ?_
        rw [List.cons_prefix_cons]
        exact ⟨hd, isPrefix_of_escaped hp hrest⟩
      · exact (ih h).trans (List.suffix_cons d t).isInfix
    · -- An entity holds no beginning of it, so it stands behind.
      have hfree : c ∉ escapedChar d := fun hin =>
        hc (List.contains_iff_mem.mp (List.all_eq_true.mp (hentity _ hmem) c hin))
      have hbehind := Text.isInfix_of_append hfree h
      exact (ih hbehind).trans (List.suffix_cons d t).isInfix

/-- What a line of `render` begins with stands in the text, if it has none of the marks that
rendering writes. -/
theorem isInfix_of_isPrefix_render {c : Char} {p t line : Text} (hc : c ∉ entityMarks)
    (hamp : '&' ∉ p) (hangle : '<' ∉ c :: p) (h : line ∈ render t) (hline : c :: p <+: line) :
    c :: p <:+: t := by
  obtain ⟨raw, hraw, inside, hmem⟩ := exists_of_mem_render h
  rcases mem_renderLine hmem with ⟨open?, rfl⟩ | ⟨part, hpart, rfl⟩
  · -- The marker of a block begins with an angle bracket.
    have hmarker : ∃ rest, fenceMarker open? = '<' :: rest := by
      cases open? <;> exact ⟨_, rfl⟩
    obtain ⟨rest, hrest⟩ := hmarker
    rw [hrest, List.cons_prefix_cons] at hline
    exact absurd (List.mem_cons.mpr (.inl hline.1.symm)) hangle
  · have hescaped := (isPrefix_of_markSpans hangle hline).isInfix.trans hpart
    exact (isInfix_of_escaped hc hamp hescaped).trans
      ((isInfix_strip raw).trans (isInfix_of_mem_lines hraw))

end Comment

/-! ### The fields of a docstring -/

/-- The parameter that a line of a docstring begins the field of, read off the line: what stands
between `fieldMark` and the next colon. -/
def fieldName? (line : Text) : Option Text :=
  (afterStart? ":param " line).bind fun rest =>
    match cut ':' rest with
    | (name, some _) => some name
    | (_, none) => none

/-- The parameters that the lines of a docstring have fields for, in order, each read by
`fieldName?`. -/
def heads (ls : List Text) : List Text := ls.filterMap fieldName?

/-- The `heads` of the fields in two pieces of a docstring are those of the first, followed by those
of the second. -/
@[simp] theorem heads_append (xs ys : List Text) : heads (xs ++ ys) = heads xs ++ heads ys :=
  List.filterMap_append

/-- An empty line begins no field, so it adds none to the `heads`. -/
theorem heads_empty : heads [[]] = [] := rfl

/-- The beginning of every head with its first two code points in view, the form in which `isInfix`
lemmas take it. -/
theorem headStart_eq : (":param " : Text) = ':' :: 'p' :: "aram " := by decide

/-- The `paramHead` of a field is read back as its name, whatever stands behind it. -/
theorem fieldName?_paramHead {name : Text} (h : IsIdentifier name) (rest : Text) :
    fieldName? (paramHead name ++ rest) = some name := by
  have htext : paramHead name ++ rest = (":param " : Text) ++ (name ++ ':' :: rest) := by
    unfold paramHead
    simp only [List.append_assoc, List.singleton_append]
  rw [fieldName?, htext, afterStart?_append, Option.bind_some,
    cut_append_cons (h.not_mem (by decide))]

/-- The field for the result has no `fieldName?`, being the field of no parameter. -/
theorem fieldName?_return (rest : Text) : fieldName? (":return:" ++ rest) = none := by
  have hhead : (":return:" : Text) = ':' :: 'r' :: "eturn:" := by decide
  rw [fieldName?, headStart_eq, hhead, List.cons_append, List.cons_append, afterStart?, if_pos rfl,
    afterStart?, if_neg (by decide)]
  rfl

/-- An indented line has no `fieldName?`, even where its text would. -/
theorem fieldName?_indented (line : Text) : fieldName? (indentUnit ++ line) = none := by
  have hunit : indentUnit = ' ' :: "   " := by decide
  rw [fieldName?, headStart_eq, hunit, List.cons_append, afterStart?, if_neg (by decide)]
  rfl

/-- A `docField` has the head that it begins with, and no other: the lines behind it are indented.
-/
theorem heads_docField {head : Text} {name? : Option Text}
    (h : ∀ rest, fieldName? (head ++ rest) = name?) (ls : List Text) :
    heads (docField head ls) = name?.toList := by
  have hfirst : fieldName? head = name? := by
    have hnone := h []
    rwa [List.append_nil] at hnone
  cases ls with
  | nil =>
    rw [docField, heads, List.filterMap_cons, hfirst]
    cases name? <;> rfl
  | cons first rest =>
    -- Further lines are indented or empty, so none begins a field.
    have hrest : heads (rest.map fun line => if line.isEmpty then [] else indentUnit ++ line) =
        [] := by
      rw [heads, List.filterMap_map, List.filterMap_eq_nil_iff]
      intro line _
      rw [Function.comp_apply]
      split
      · rfl
      · exact fieldName?_indented line
    have hhead : fieldName? (if first.isEmpty then head else head ++ ' ' :: first) = name? := by
      split
      · exact hfirst
      · exact h _
    rw [docField, heads, List.filterMap_cons, hhead]
    cases name? with
    | none => exact hrest
    | some name => exact congrArg (name :: ·) hrest

/-- The beginning of a parameter's field, without the blank that follows. A text that holds it may
be read for a field by `fieldName?`. -/
def fieldMark : Text := ':' :: "param"

/-- None of the texts in front of the fields holds the beginning of a field (`fieldMark`), which
would be taken for one. -/
def HeadFree (op : Operation) (doc : Documentation) : Prop :=
  ∀ t ∈ [doc.summary, doc.description, doc.deprecationMessage, op.deprecationExplanation],
    ¬fieldMark <:+: t

instance (op : Operation) (doc : Documentation) : Decidable (HeadFree op doc) :=
  List.decidableBAll (fun t : Text => ¬fieldMark <:+: t) _

/-- A text without a `fieldMark` is rendered to lines without a head. -/
theorem heads_render {t : Text} (h : ¬fieldMark <:+: t) : heads (Comment.render t) = [] := by
  refine List.filterMap_eq_nil_iff.mpr fun line hline => ?_
  rw [fieldName?]
  cases hrest : afterStart? ":param " line with
  | none => rfl
  | some rest =>
    refine absurd ?_ h
    have hstart : fieldMark <+: line := by
      rw [eq_append_of_afterStart? hrest]
      exact ⟨' ' :: rest, rfl⟩
    exact Comment.isInfix_of_isPrefix_render (by decide) (by decide) (by decide) hline hstart

/-- A `paragraph` of lines without a head has no head either. -/
theorem heads_paragraph {ls : List Text} (h : heads ls = []) : heads (paragraph ls) = [] := by
  rw [paragraph]
  split
  · rfl
  · rw [← List.singleton_append, heads_append, heads_empty, h]
    rfl

namespace Operation

variable {op : Operation} {doc : Documentation}

/-- The `deprecationNote?` holds no beginning of a field but one of its message. -/
theorem not_isInfix_deprecationNote (hfree : HeadFree op doc) {note : Text}
    (h : deprecationNote? op doc = some note) : ¬fieldMark <:+: note := by
  have hmessage : ¬fieldMark <:+: op.deprecationText doc := by
    rw [deprecationText]
    split
    · exact hfree _ (by simp)
    · exact hfree _ (by simp)
  -- No colon stands in the heading or in the blank behind it, so a beginning of a field, which
  -- holds one, would lie in the message.
  have hcolon : ':' ∉ op.deprecationHeading := by
    have hdigits : ∀ n, ':' ∉ ofNat n := by
      intro n hmem
      exact absurd (Script.isDigit_of_mem_ofNat hmem) (by decide)
    have hversion : ':' ∉ ofInt op.deprecationVersion := by
      cases op.deprecationVersion <;> simp [ofInt, hdigits]
    rw [deprecationHeading]
    split
    · simp [hversion]
    · decide
  rw [deprecationNote?_eq] at h
  split at h
  · cases h
  · cases h
    split
    · exact fun hin => hcolon (hin.subset (by decide))
    · intro hin
      have hspaced : ':' ∉ op.deprecationHeading ++ [' '] := by simp [hcolon]
      rw [← List.singleton_append, ← List.append_assoc] at hin
      exact hmessage (isInfix_of_append hspaced hin)

/-- The `heads` of the fields of a docstring, in order: one for each input and each attribute that a
caller gives, and one for the name of the operation. -/
theorem heads_docstringLines (hinputs : ∀ a ∈ op.inputs, IsIdentifier a.name)
    (hattributes : ∀ a ∈ op.attributes, IsIdentifier a.name) (hfree : HeadFree op doc)
    {ls : List Text} (h : docstringLines op doc = .ok ls) :
    heads ls = op.givenNames.map parameter ++ ["name".toList] := by
  obtain ⟨optional, hoptional, h⟩ := (bind_eq_ok_iff _ _ _).mp h
  cases h
  have hfield : ∀ name, IsIdentifier name → ∀ ls : List Text,
      heads (docField (paramHead (parameter name)) ls) = [parameter name] := fun name hname ls =>
    heads_docField (fieldName?_paramHead (Naming.isIdentifier_parameter hname)) ls
  have hgiven : ∀ a ∈ op.givenAttributes, IsIdentifier a.name := fun a ha =>
    hattributes a (List.mem_filter.mp ha).1
  have hsummary := heads_render (hfree doc.summary (by simp))
  have hdescription := heads_paragraph (heads_render (hfree doc.description (by simp)))
  have hdeprecation : heads (paragraph (((deprecationNote? op doc).map Comment.render).getD [])) =
      [] := by
    refine heads_paragraph ?_
    cases hnote : deprecationNote? op doc with
    | none => rfl
    | some note => exact heads_render (not_isInfix_deprecationNote hfree hnote)
  -- Fields in a row have one head each.
  have hfields : ∀ {α : Type} (xs : List α) (name : α → Text) (field : α → List Text),
      (∀ x ∈ xs, heads (field x) = [name x]) → heads (xs.flatMap field) = xs.map name := by
    intro α xs name field hone
    induction xs with
    | nil => rfl
    | cons x xs ih =>
      rw [List.flatMap_cons, heads_append, hone x List.mem_cons_self,
        ih fun y hy => hone y (List.mem_cons_of_mem x hy)]
      rfl
  have hinputs := hfields op.inputs (fun a => parameter a.name)
    (fun a => docField (paramHead (parameter a.name)) (Comment.render (describe doc.inputs a.name)))
    fun a ha => hfield a.name (hinputs a ha) _
  have hrequired := hfields op.classification.required (fun a => parameter a.name)
    (fun a => docField (paramHead (parameter a.name))
      (Comment.render (describe doc.attributes a.name)))
    fun a ha => hfield a.name (hgiven a (List.mem_filter.mp ha).1) _
  have hoptional : heads optional.flatten =
      op.classification.optional.map fun a => parameter a.name := by
    have heach : optional.map heads =
        op.classification.optional.map fun a => [parameter a.name] := by
      refine map_eq_map_of_mem_mapM (fun a ha field hmade => ?_) hoptional
      obtain ⟨onDefault, -, rfl⟩ := (map_eq_ok_iff _ _ _).mp hmade
      exact hfield a.name (hgiven a (List.mem_filter.mp ha).1) _
    rw [heads, List.filterMap_flatten]
    show (optional.map heads).flatten = _
    rw [heach, ← List.flatMap_def]
    exact List.map_eq_flatMap.symm
  have hname := heads_docField (fieldName?_paramHead (by decide : IsIdentifier "name"))
    (Comment.render (nameNote op.name))
  have hreturn := heads_docField fieldName?_return (returnLines op doc)
  simp only [heads_append, hsummary, hdescription, hdeprecation, heads_empty, hinputs, hrequired,
    hoptional, hname, hreturn]
  simp only [givenNames, parameterAttributes, List.map_append, List.map_map, Function.comp_def,
    Option.toList_some, Option.toList_none, List.nil_append, List.append_nil, List.append_assoc]

end Operation

end TypedOps
