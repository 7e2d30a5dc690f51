import Mathlib.Algebra.GroupWithZero.Nat
import TypedOps.Proofs.Emit.DocLines
import TypedOps.Proofs.Support.Lists

/-!
# `TypedOps.Proofs.Emit.DocTexts`: what a docstring comes to

`Operation.docTexts` lists the texts that a docstring is rendered from, each as often and in the
order in which it is, and nothing else: where `Operation.Rendered` says what a line may come from,
this says what there is.

Between the rendered lines a docstring has heads of fields, indentation and empty lines. A measure
of lines that none of these changes (`Operation.Carries`) adds up to the same over a docstring as
over the rendered lines of its texts, each rendered alone (`Operation.total_docstringLines`).
-/

set_option autoImplicit false

namespace TypedOps

open Naming (parameter)
open Text

/-! ### The texts -/

/-- The text that shows a default, with `shown` between backticks. -/
def defaultNote (shown : Text) : Text :=
  "Defaults to " ++ Comment.backtick :: shown ++ Comment.backtick :: ".".toList

/-- The `defaultNote` of an attribute, if there is a default and `shownDefault` can show it. -/
def Attribute.defaultTexts (a : Attribute) : List Text :=
  match a.defaultValue with
  | .nothing => []
  | v => (v.shownDefault a.tag).toOption.toList.map defaultNote

/-- The text on one of several outputs: its name in front of what the `Documentation` says of it. -/
def tupleItem (doc : Documentation) (a : Argument) : Text :=
  stripEnd (parameter a.name ++ ": " ++ describe doc.outputs a.name)

namespace Operation

/-- The texts on what a method returns, by the number of the operation's outputs. Each of several is
a `tupleItem`. -/
def returnTexts (op : Operation) (doc : Documentation) : List Text :=
  match op.outputs with
  | [] => [noOutputNote]
  | [a] => [describe doc.outputs a.name] ++ [singleFetchNote]
  | outputs => [tupleIntro] ++ outputs.map (tupleItem doc) ++ [tupleFetchNote]

/-- The texts that `docstringLines` are rendered from, in the order in which they come. -/
def docTexts (op : Operation) (doc : Documentation) : List Text :=
  [doc.summary] ++ [doc.description] ++ (deprecationNote? op doc).toList ++
    op.inputs.map (fun a => describe doc.inputs a.name) ++
    op.classification.required.map (fun a => describe doc.attributes a.name) ++
    op.classification.optional.flatMap (fun a =>
      ["Optional argument.".toList] ++ [describe doc.attributes a.name] ++ a.defaultTexts) ++
    [nameNote op.name] ++ op.returnTexts doc

end Operation

/-! ### Measures of lines -/

/-- The sum of the measure `f` over lines. Counting markers or blanks in a docstring is such a sum.
-/
def total (f : Text → Nat) (ls : List Text) : Nat := (ls.map f).sum

/-- A line in front of others adds its own measure to the `total`. -/
theorem total_cons (f : Text → Nat) (l : Text) (ls : List Text) :
    total f (l :: ls) = f l + total f ls := rfl

/-- The `total` of two runs of lines is the sum of theirs. -/
theorem total_append (f : Text → Nat) (xs ys : List Text) :
    total f (xs ++ ys) = total f xs + total f ys := by
  rw [total, List.map_append, List.sum_append_nat]
  rfl

/-- The `total` of lines is zero exactly when the measure of each is. -/
theorem total_eq_zero_iff (f : Text → Nat) (ls : List Text) :
    total f ls = 0 ↔ ∀ l ∈ ls, f l = 0 := by
  induction ls with
  | nil => simp [total]
  | cons l ls ih =>
    rw [List.forall_mem_cons, ← ih, total_cons, Nat.add_eq_zero_iff]

/-- A measure to which the head of a field makes no difference, by itself or in front of a line. -/
structure IsHead (f : Text → Nat) (head : Text) : Prop where
  alone : f head = 0
  inFront : ∀ line, line ≠ [] → f (head ++ ' ' :: line) = f line

/-- A measure to which nothing makes a difference but what is rendered: empty lines, indentation and
names count for nothing, and heads have `IsHead`. -/
structure Operation.Carries (op : Operation) (f : Text → Nat) : Prop where
  empty : f [] = 0
  indented : ∀ line, line ≠ [] → f (indentUnit ++ line) = f line
  inputs : ∀ a ∈ op.inputs, IsHead f (paramHead (parameter a.name))
  attributes : ∀ a ∈ op.attributes, IsHead f (paramHead (parameter a.name))
  name : IsHead f (paramHead "name")
  result : IsHead f ":return:"

/-- Lines that have the same `total` as some texts, each rendered alone. -/
def ComesTo (f : Text → Nat) (ls ts : List Text) : Prop :=
  total f ls = total f (ts.flatMap Comment.render)

section
variable {f : Text → Nat}

/-- No lines are counted by `ComesTo` as no texts, which begins the account of a docstring. -/
theorem comesTo_nil : ComesTo f [] [] := rfl

/-- The rendered lines of a text have `ComesTo` with that text. -/
theorem comesTo_render (t : Text) : ComesTo f (Comment.render t) [t] := by
  rw [ComesTo, List.flatMap_singleton]

/-- Lines one behind the other have `ComesTo` with the texts of both, in order. -/
theorem ComesTo.append {xs ys ts us : List Text} (hx : ComesTo f xs ts) (hy : ComesTo f ys us) :
    ComesTo f (xs ++ ys) (ts ++ us) := by
  rw [ComesTo, List.flatMap_append, total_append, total_append, hx, hy]

/-- Lines made for several things have `ComesTo` with the texts made for them. -/
theorem comesTo_flatMap {α : Type} {lines texts : α → List Text} {xs : List α}
    (h : ∀ x ∈ xs, ComesTo f (lines x) (texts x)) :
    ComesTo f (xs.flatMap lines) (xs.flatMap texts) :=
  relates_flatMap comesTo_nil ComesTo.append h

/-- Lines made for several things, where each may fail to be made, have `ComesTo` with the texts
made for them. -/
theorem comesTo_mapM {ε α : Type} {lines : α → Except ε (List Text)} {texts : α → List Text}
    {xs : List α} {parts : List (List Text)}
    (h : ∀ x ∈ xs, ∀ part, lines x = .ok part → ComesTo f part (texts x))
    (hparts : xs.mapM lines = .ok parts) : ComesTo f parts.flatten (xs.flatMap texts) := by
  have heach := map_eq_map_of_mem_mapM (q := total f)
    (p := fun x => total f ((texts x).flatMap Comment.render)) h hparts
  have hflatten : ∀ xss : List (List Text), total f xss.flatten = (xss.map (total f)).sum := by
    intro xss
    induction xss with
    | nil => rfl
    | cons xs xss ih => rw [List.flatten_cons, total_append, ih, List.map_cons, List.sum_cons]
  rw [ComesTo, hflatten, heach, List.flatMap_assoc, List.flatMap_def, hflatten, List.map_map]
  rfl

/-- A `paragraph` comes to the texts that its lines come to: the empty line behind it counts for
nothing. -/
theorem ComesTo.paragraph {ls ts : List Text} (hempty : f [] = 0) (h : ComesTo f ls ts) :
    ComesTo f (paragraph ls) ts := by
  rw [TypedOps.paragraph]
  split
  · next hnone => rwa [List.isEmpty_iff.mp hnone] at h
  · rwa [ComesTo, total_cons, hempty, Nat.zero_add]

/-- A `docField` comes to the texts of the lines in it: its head and the indentation count for
nothing. -/
theorem ComesTo.docField {ls ts : List Text} {head : Text} (hempty : f [] = 0)
    (hindented : ∀ line, line ≠ [] → f (indentUnit ++ line) = f line) (hhead : IsHead f head)
    (h : ComesTo f ls ts) : ComesTo f (docField head ls) ts := by
  -- The measure adds up over lines, so it is enough that each line counts as it does without what
  -- stands in front.
  have hsame : total f (TypedOps.docField head ls) = total f ls := by
    cases ls with
    | nil => simp [TypedOps.docField, total, hhead.alone]
    | cons first rest =>
      have hfirst : f (if first.isEmpty then head else head ++ ' ' :: first) = f first := by
        split
        · next hnone => rw [List.isEmpty_iff.mp hnone, hempty, hhead.alone]
        · next hsome => exact hhead.inFront first (by simpa using hsome)
      have hrest : (rest.map fun line => if line.isEmpty then [] else indentUnit ++ line).map f =
          rest.map f := by
        rw [List.map_map]
        refine List.map_congr_left fun line _ => ?_
        rw [Function.comp_apply]
        split
        · next hnone => rw [List.isEmpty_iff.mp hnone]
        · next hsome => exact hindented line (by simpa using hsome)
      simp only [TypedOps.docField, total, List.map_cons, List.sum_cons, hfirst, hrest]
  rw [ComesTo, hsame, h]

end

/-- For a default with a plain form, the lines on it are the rendered `defaultNote`, if the form can
be shown. -/
theorem defaultLines_eq_map {a : Attribute} (h : a.defaultValue ≠ .nothing) :
    defaultLines a = (a.defaultValue.shownDefault a.tag).map fun shown =>
      Comment.render (defaultNote shown) := by
  rw [defaultLines]
  split
  · next hvalue => exact absurd hvalue h
  · rfl

/-- The `defaultLines` are the text on a default, rendered, and none where there is no text. -/
theorem defaultLines_eq {a : Attribute} {ls : List Text} (h : defaultLines a = .ok ls) :
    ls = a.defaultTexts.flatMap Comment.render := by
  by_cases hnothing : a.defaultValue = .nothing
  -- Without a value there is neither a text nor a line.
  · rw [defaultLines, hnothing] at h
    cases h
    rw [Attribute.defaultTexts, hnothing]
    rfl
  · have htexts : a.defaultTexts =
        (a.defaultValue.shownDefault a.tag).toOption.toList.map defaultNote := by
      rw [Attribute.defaultTexts]
      split
      · next hvalue => exact absurd hvalue hnothing
      · rfl
    rw [defaultLines_eq_map hnothing] at h
    obtain ⟨shown, hshown, rfl⟩ := (map_eq_ok_iff _ _ _).mp h
    rw [htexts, hshown]
    exact (List.flatMap_singleton ..).symm

namespace Operation

variable {op : Operation} {doc : Documentation} {f : Text → Nat}

/-- The lines on what a method returns come to the `returnTexts`. -/
theorem comesTo_returnLines : ComesTo f (returnLines op doc) (op.returnTexts doc) := by
  rw [returnLines, returnTexts]
  rcases op.outputs with _ | ⟨a, _ | ⟨b, rest⟩⟩
  · exact comesTo_render _
  · exact (comesTo_render _).append (comesTo_render _)
  · have hitems : ComesTo f ((a :: b :: rest).flatMap fun a => Comment.render (tupleItem doc a))
        ((a :: b :: rest).map (tupleItem doc)) := by
      rw [List.map_eq_flatMap]
      exact comesTo_flatMap fun a _ => comesTo_render _
    exact ((comesTo_render _).append hitems).append (comesTo_render _)

/-- A docstring comes to its `docTexts`, each rendered alone: what a measure finds in the lines, it
finds in the texts. -/
theorem total_docstringLines (hf : op.Carries f) {ls : List Text}
    (h : docstringLines op doc = .ok ls) :
    total f ls = total f ((op.docTexts doc).flatMap Comment.render) := by
  obtain ⟨optional, hoptional, h⟩ := (bind_eq_ok_iff _ _ _).mp h
  cases h
  -- Field by field the lines come to their texts, and the pieces are put together in the order of
  -- `docstringLines`.
  have hfield : ∀ {head : Text} {ls ts : List Text}, IsHead f head → ComesTo f ls ts →
      ComesTo f (docField head ls) ts := fun hhead hls => hls.docField hf.empty hf.indented hhead
  have hdeclared : ∀ a ∈ op.givenAttributes, a ∈ op.attributes := fun a ha =>
    (List.mem_filter.mp ha).1
  have hblank : ComesTo f [[]] [] := by
    rw [ComesTo, total, total]
    simpa using hf.empty
  have hdeprecation : ComesTo f (((deprecationNote? op doc).map Comment.render).getD [])
      (deprecationNote? op doc).toList := by
    cases deprecationNote? op doc with
    | none => exact comesTo_nil
    | some note => exact comesTo_render note
  have hinputs : ComesTo f
      (op.inputs.flatMap fun a => docField (paramHead (parameter a.name))
        (Comment.render (describe doc.inputs a.name)))
      (op.inputs.map fun a => describe doc.inputs a.name) := by
    rw [List.map_eq_flatMap]
    exact comesTo_flatMap fun a ha => hfield (hf.inputs a ha) (comesTo_render _)
  have hrequired : ComesTo f
      (op.classification.required.flatMap fun a => docField (paramHead (parameter a.name))
        (Comment.render (describe doc.attributes a.name)))
      (op.classification.required.map fun a => describe doc.attributes a.name) := by
    rw [List.map_eq_flatMap]
    refine comesTo_flatMap fun a ha => hfield (hf.attributes a ?_) (comesTo_render _)
    exact hdeclared a (List.mem_filter.mp ha).1
  have hoptional : ComesTo f optional.flatten (op.classification.optional.flatMap fun a =>
      ["Optional argument.".toList] ++ [describe doc.attributes a.name] ++ a.defaultTexts) := by
    refine comesTo_mapM (fun a ha field hmade => ?_) hoptional
    obtain ⟨onDefault, hdefault, rfl⟩ := (map_eq_ok_iff _ _ _).mp hmade
    have hlines : ComesTo f onDefault a.defaultTexts := by
      rw [defaultLines_eq hdefault]
      rfl
    have hbody := ((comesTo_render (f := f) "Optional argument.".toList).append
      (comesTo_render (describe doc.attributes a.name))).append hlines
    refine hfield (hf.attributes a ?_) hbody
    exact hdeclared a (List.mem_filter.mp ha).1
  have hname := hfield hf.name (comesTo_render (f := f) (nameNote op.name))
  have hlines : ComesTo f (returnLines op doc) (op.returnTexts doc) := comesTo_returnLines
  have hreturn := hfield hf.result hlines
  have hall := (comesTo_render (f := f) doc.summary).append
    ((comesTo_render doc.description).paragraph hf.empty)
  have hall := (hall.append (hdeprecation.paragraph hf.empty)).append hblank
  rw [List.append_nil] at hall
  exact ((((hall.append hinputs).append hrequired).append hoptional).append hname).append hreturn

end Operation

end TypedOps
