import TypedOps.Proofs.Catalog.RoundTrip
import TypedOps.Proofs.Emit.DocTexts
import TypedOps.Proofs.Emit.Unrender
import TypedOps.Proofs.Operation.Default
import TypedOps.Proofs.Value

/-!
# `TypedOps.Proofs.Emit.ShownDefaults`: shown defaults are read back

A docstring shows the default of an attribute in a line of its own, between the markers of a span.
A reader who finds the markers takes what stands between them, undoes the escaping and has the
literal (`ReadsDefault`). The default goes through literals, trimming, escaping and marking on its
way there, and its strings may hold anything.

* `MadeFor.exists_shown`: what is made for a type tag can be shown. The literal stands on one line,
  and a backtick in it is one of a string.
* `readsDefault_rendered_iff`: so the default is read back from the lines of its note unless one of
  its strings holds a backtick.
* `Operation.exists_readsDefault_iff`: and from the docstring.

A backtick inside a literal is the exception. The note puts the literal between two backticks
before the text is rendered, so one in between ends the span early.
-/

set_option autoImplicit false

namespace TypedOps

open Catalog (AttributeValue ListValue ConstructFault plainType storedItems storedList storedType
  storedFloat)
open Comment (backtick escaped unescaped markSpans render blockMarkers spanMarkers inlineOpen
  inlineClose)
open Naming (parameter)
open Text
open Value (asText asShownFloat)

/-! ### What is read -/

/-- An attribute whose default `AttributeValue.ofValue` made from some value for its own type tag,
as all defaults of a catalog made by hand are. -/
def Attribute.DefaultMade (a : Attribute) : Prop :=
  ∃ v stored, AttributeValue.ofValue v a.tag = .ok stored ∧ a.defaultValue = stored.plain

/-- A line of a field that a default is read from: between the markers of a span it holds a text
without markers, which is the default when its entities are `unescaped`. -/
def ReadsDefault (shown line : Text) : Prop :=
  ∃ between : Text,
    line = indentUnit ++ ("Defaults to " ++ inlineOpen ++ between ++ inlineClose ++ ".") ∧
      (∀ m ∈ blockMarkers ++ spanMarkers, ¬m <:+: between) ∧ unescaped between = shown

/-! ### What is made for a tag -/

/-- A plain value of the kind that is made for a type tag. Only tags of element types and of floats
show a value in another way than as its literal, as `shownDefault` does it. -/
inductive MadeFor (tag : Text) : Value → Prop where
  | types (numbers : List Int) (htag : TypeTag.split tag = ("type".toList, true)) :
    MadeFor tag (.list (numbers.map plainType))
  | type (number : Int) (htag : TypeTag.split tag = ("type".toList, false)) :
    MadeFor tag (plainType number)
  | floats (xs : List Floating) (htag : TypeTag.split tag = ("float".toList, true)) :
    MadeFor tag (.list (xs.map .float))
  | float (x : Floating) (htag : TypeTag.split tag = ("float".toList, false)) :
    MadeFor tag (.float x)
  | other {v : Value} (hwritable : v.Writable)
    (htype : (TypeTag.split tag).1 ≠ "type".toList)
    (hfloat : (TypeTag.split tag).1 ≠ "float".toList) : MadeFor tag v

/-- What `storedList` gives for element types holds nothing else, whatever the values were given as.
-/
theorem plainItems_types {tag : Text} {items : List Value} {list : ListValue}
    (h : storedList tag "type" items = .ok list) :
    ∃ numbers : List Int, list.plainItems = numbers.map plainType := by
  have hstored : storedList tag "type" items =
      items.mapM storedType >>= fun numbers => .ok { types := numbers } := rfl
  rw [hstored, bind_eq_ok_iff] at h
  obtain ⟨numbers, -, h⟩ := h
  cases h
  refine ⟨numbers, ?_⟩
  cases numbers <;> rfl

/-- What `storedList` gives for floats holds nothing else, integers among them being converted. -/
theorem plainItems_floats {tag : Text} {items : List Value} {list : ListValue}
    (h : storedList tag "float" items = .ok list) :
    ∃ xs : List Floating, list.plainItems = xs.map .float := by
  have hstored : storedList tag "float" items =
      items.mapM storedFloat >>= fun xs => .ok { floats := xs } := rfl
  rw [hstored, bind_eq_ok_iff] at h
  obtain ⟨xs, -, h⟩ := h
  cases h
  refine ⟨xs, ?_⟩
  cases xs <;> rfl

/-- What `ofValue` stores under a tag is, in plain form, of the kind that is made for the tag. -/
theorem madeFor_plain {v : Value} {tag : Text} {stored : AttributeValue}
    (h : AttributeValue.ofValue v tag = .ok stored) : MadeFor tag stored.plain := by
  have hwritable := AttributeValue.writable_plain (AttributeValue.storable_of_ofValue h)
  -- Storing a value and showing it take a tag apart in the same way, up to the closing bracket.
  rw [AttributeValue.ofValue] at h
  split at h
  · next rest hrest =>
    obtain ⟨items, -, h⟩ := (bind_eq_ok_iff _ _ _).mp h
    obtain ⟨list, hlist, h⟩ := (bind_eq_ok_iff _ _ _).mp h
    cases h
    have hsplit : TypeTag.split tag =
        if endsWith tag ")" then (rest.dropLast, true) else (tag, false) := by
      rw [TypeTag.split, hrest]
    by_cases hends : endsWith tag ")" = true
    · rw [if_pos hends] at hsplit
      by_cases htype : rest.dropLast = "type".toList
      · rw [htype] at hlist hsplit
        obtain ⟨numbers, hitems⟩ := plainItems_types hlist
        rw [AttributeValue.plain, hitems]
        exact .types numbers hsplit
      by_cases hfloat : rest.dropLast = "float".toList
      · rw [hfloat] at hlist hsplit
        obtain ⟨xs, hitems⟩ := plainItems_floats hlist
        rw [AttributeValue.plain, hitems]
        exact .floats xs hsplit
      · exact .other hwritable (by rwa [hsplit]) (by rwa [hsplit])
    · -- A tag that begins like a list is neither of the two names.
      rw [if_neg hends] at hsplit
      have hname : ∀ name ∈ ["type".toList, "float".toList], tag ≠ name := by
        rintro name hname rfl
        rw [eq_append_of_afterStart? hrest] at hname
        simp at hname
      exact .other hwritable (by rw [hsplit]; exact hname _ (by simp))
        (by rw [hsplit]; exact hname _ (by simp))
  · next hrest =>
    have hsplit : TypeTag.split tag = (tag, false) := by
      rw [TypeTag.split, hrest]
    by_cases htype : tag = "type".toList
    · subst htype
      obtain ⟨number, -, rfl⟩ := (map_eq_ok_iff _ _ _).mp h
      exact .type number hsplit
    by_cases hfloat : tag = "float".toList
    · subst hfloat
      obtain ⟨x, -, rfl⟩ := (map_eq_ok_iff _ _ _).mp h
      exact .float x hsplit
    · exact .other hwritable (by rwa [hsplit]) (by rwa [hsplit])

/-! ### What is shown -/

/-- A text with `OneLine` that holds a backtick just where one of some strings does. -/
structure ShowsStrings (strings : List Text) (shown : Text) : Prop where
  oneLine : OneLine shown
  backticks : backtick ∈ shown ↔ ∃ t ∈ strings, backtick ∈ t

/-- The `spelled` form of a value shows its strings: it escapes line feeds, and nothing else but
what a literal needs. -/
theorem showsStrings_spelled {v : Value} (h : v.Writable) :
    ShowsStrings v.strings v.spelled := by
  have hfeed : isPrintable '\n' = false := by decide
  have hback : isPrintable backtick = true := by decide
  constructor
  · intro hmem
    rw [Value.mem_spelled_iff (by decide) v h, hfeed] at hmem
    cases hmem.2
  · rw [Value.mem_spelled_iff (by decide) v h]
    simp [hback]

/-- The `name` of an element type stands on one line and holds no backtick, also where it is a
number. -/
theorem name_free (number : Int) :
    OneLine (DataType.name number) ∧ backtick ∉ DataType.name number := by
  have hnamed : ∀ entry ∈ DataType.named, OneLine entry.1 ∧ backtick ∉ entry.1 := by
    rw [DataType.named, DataType.plain]
    repeat rw [String.toList_ofList]
    decide
  rw [DataType.name]
  cases hfound : DataType.named.find? (·.2 == number) with
  | some entry => exact hnamed entry (List.mem_of_find?_eq_some hfound)
  | none =>
    -- A number without a name is shown in digits.
    have hnumeral := numeral_ofInt number
    exact ⟨hnumeral.plain.oneLine, fun hmem => absurd (hnumeral _ hmem) (by decide)⟩

/-- The names of several element types, put together by `join` with commas, stand on one line and
hold no backtick. -/
theorem join_names_free (numbers : List Int) :
    OneLine (join ", " (numbers.map DataType.name)) ∧
      backtick ∉ join ", " (numbers.map DataType.name) := by
  constructor
  · rw [OneLine, mem_join_iff (by decide)]
    rintro ⟨name, hname, hmem⟩
    obtain ⟨number, -, rfl⟩ := List.mem_map.mp hname
    exact (name_free number).1 hmem
  · rw [mem_join_iff (by decide)]
    rintro ⟨name, hname, hmem⟩
    obtain ⟨number, -, rfl⟩ := List.mem_map.mp hname
    exact (name_free number).2 hmem

/-- A list of floats is `Writable`, since no part of it is a number of too many digits. -/
theorem writable_floats (xs : List Floating) : (Value.list (xs.map .float)).Writable :=
  Value.writable_list_iff.mpr <|
    List.forall_mem_map.mpr fun _ _ => Value.writable_of_parts_eq rfl rfl

section
variable {tag : Text}

/-- Several element types are shown by `shownDefault` with their names, between brackets. -/
theorem shownDefault_types (h : TypeTag.split tag = ("type".toList, true)) (numbers : List Int) :
    (Value.list (numbers.map plainType)).shownDefault tag =
      .ok ("[" ++ join ", " (numbers.map DataType.name) ++ "]") := by
  have hnames : (numbers.map plainType).mapM asText = .ok (numbers.map DataType.name) := by
    rw [List.mapM_map]
    exact mapM_eq_ok_of_forall fun _ _ => rfl
  simp only [Value.shownDefault, h, if_true, Value.items]
  show (numbers.map plainType).mapM asText >>= _ = _
  rw [hnames]
  rfl

/-- Several floats are shown by `shownDefault` with seven digits each, as a list. -/
theorem shownDefault_floats (h : TypeTag.split tag = ("float".toList, true))
    (xs : List Floating) :
    (Value.list (xs.map .float)).shownDefault tag =
      .ok (Value.list ((xs.map (Floating.significant 7)).map .float)).spelled := by
  have hfloats : (xs.map Value.float).mapM asShownFloat =
      .ok ((xs.map (Floating.significant 7)).map .float) := by
    rw [List.mapM_map, List.map_map]
    exact mapM_eq_ok_of_forall fun _ _ => rfl
  have hname : ("float".toList : Text) ≠ "type".toList := by decide
  simp only [Value.shownDefault, h, hname, if_true, if_false, Value.items]
  show (xs.map Value.float).mapM asShownFloat >>= _ = _
  rw [hfloats]
  exact Value.literal_eq_spelled (writable_floats _)

end

/-- The `strings` in a list of element types are their names, none of which holds a backtick. -/
theorem backtick_not_mem_strings_types (numbers : List Int) :
    ∀ t ∈ (Value.list (numbers.map plainType)).strings, backtick ∉ t := by
  intro t ht
  obtain ⟨item, hitem, ht⟩ := Value.mem_stringsAmong.mp ht
  obtain ⟨number, -, rfl⟩ := List.mem_map.mp hitem
  rw [List.mem_singleton.mp ht]
  exact (name_free number).2

/-- A list of floats has no `strings`, so no backtick can come in with it. -/
theorem strings_floats (xs : List Floating) : (Value.list (xs.map .float)).strings = [] := by
  refine List.eq_nil_iff_forall_not_mem.mpr fun t ht => ?_
  obtain ⟨item, hitem, ht⟩ := Value.mem_stringsAmong.mp ht
  obtain ⟨x, -, rfl⟩ := List.mem_map.mp hitem
  cases ht

/-- What is `MadeFor` a tag can be shown, and only its strings bring backticks. -/
theorem MadeFor.exists_shown {tag : Text} {v : Value} (h : MadeFor tag v) :
    ∃ shown, v.shownDefault tag = .ok shown ∧ ShowsStrings v.strings shown := by
  cases h with
  | types numbers htag =>
    -- The names are joined as they are, so they have to be free of both themselves.
    obtain ⟨hone, hfree⟩ := join_names_free numbers
    have hshown : OneLine ("[" ++ join ", " (numbers.map DataType.name) ++ "]") := by
      simp only [oneLine_append]
      exact ⟨⟨by decide, hone⟩, by decide⟩
    have hnone : backtick ∉ "[" ++ join ", " (numbers.map DataType.name) ++ "]" := by
      simp only [List.mem_append, hfree, or_false, not_or]
      exact ⟨by decide, by decide⟩
    refine ⟨_, shownDefault_types htag numbers, hshown, iff_of_false hnone ?_⟩
    rintro ⟨t, ht, hmem⟩
    exact backtick_not_mem_strings_types numbers t ht hmem
  | type number htag =>
    have hshown : (plainType number).shownDefault tag = .ok (DataType.name number) := by
      simp only [Value.shownDefault, htag, if_true]
      rfl
    obtain ⟨hone, hfree⟩ := name_free number
    refine ⟨_, hshown, hone, iff_of_false hfree ?_⟩
    rintro ⟨t, ht, hmem⟩
    rw [List.mem_singleton.mp ht] at hmem
    exact hfree hmem
  | floats xs htag =>
    have hspelled := showsStrings_spelled (writable_floats (xs.map (Floating.significant 7)))
    rw [strings_floats] at hspelled
    rw [strings_floats]
    exact ⟨_, shownDefault_floats htag xs, hspelled⟩
  | float x htag =>
    have hname : ("float".toList : Text) ≠ "type".toList := by decide
    have hshown : (Value.float x).shownDefault tag =
        .ok (Value.float (x.significant 7)).spelled := by
      simp only [Value.shownDefault, htag, hname, if_true, if_false]
      rfl
    have hspelled := showsStrings_spelled (v := .float (x.significant 7))
      (Value.writable_of_parts_eq rfl rfl)
    exact ⟨_, hshown, hspelled⟩
  | other hwritable htype hfloat =>
    have hshown : v.shownDefault tag = .ok v.spelled := by
      simp only [Value.shownDefault, htype, hfloat, if_false, Value.literal_eq_spelled hwritable]
    exact ⟨_, hshown, showsStrings_spelled hwritable⟩

/-! ### The lines on a default -/

namespace Comment

/-- Up to the first backtick `markSpans` copies a text. -/
theorem markSpans_append {s : Text} (h : backtick ∉ s) (inside : Bool) (t : Text) :
    markSpans inside (s ++ t) = s ++ markSpans inside t := by
  induction s with
  | nil => rfl
  | cons c s ih =>
    rw [List.mem_cons, not_or] at h
    rw [List.cons_append, markSpans, if_neg (Ne.symm h.1), ih h.2, List.cons_append]

/-- No backtick is left behind `markSpans`: each becomes a marker. -/
theorem backtick_not_mem_markSpans (inside : Bool) (t : Text) : backtick ∉ markSpans inside t := by
  induction t generalizing inside with
  | nil => exact List.not_mem_nil
  | cons c t ih =>
    have hmarker : backtick ∉ (if inside then inlineClose else inlineOpen) := by
      cases inside <;> decide
    rw [markSpans]
    split
    · rw [List.mem_append, not_or]
      exact ⟨hmarker, ih !inside⟩
    · next hc =>
      rw [List.mem_cons, not_or]
      exact ⟨Ne.symm hc, ih inside⟩

/-- No line of `render` holds a backtick, since those that do not mark a span are escaped. -/
theorem backtick_not_mem_of_mem_render {t line : Text} (h : line ∈ render t) :
    backtick ∉ line := by
  have hmarker : ∀ open?, backtick ∉ fenceMarker open? := by decide
  obtain ⟨raw, -, inside, hline⟩ := exists_of_mem_render h
  rcases mem_renderLine hline with ⟨open?, rfl⟩ | ⟨part, -, rfl⟩
  · exact hmarker open?
  · exact backtick_not_mem_markSpans false part

/-- An `escaped` text holds no backtick that the text does not hold. -/
theorem backtick_not_mem_escaped {t : Text} (h : backtick ∉ t) : backtick ∉ escaped t := by
  have hentity : ∀ e ∈ (["&amp;".toList, "&lt;".toList, "&gt;".toList] : List Text),
      backtick ∉ e := by decide
  intro hmem
  obtain ⟨c, hc, hmem⟩ := List.mem_flatMap.mp hmem
  rcases escapedChar_cases c with hself | hnamed
  · rw [hself, List.mem_singleton] at hmem
    exact h (hmem ▸ hc)
  · exact hentity _ hnamed hmem

/-- An `unescaped` text holds no backtick that the text does not hold, since no entity stands for
one. -/
theorem mem_of_backtick_mem_unescaped (t : Text) (h : backtick ∈ unescaped t) : backtick ∈ t := by
  -- The cases follow the recursion of `unescaped`: three entities, any other code point, and the
  -- end.
  induction t using unescaped.induct with
  | case1 t ih =>
    rw [unescaped, List.mem_cons] at h
    exact List.mem_append_right ['&', 'a', 'm', 'p', ';'] (ih (h.resolve_left (by decide)))
  | case2 t ih =>
    rw [unescaped, List.mem_cons] at h
    exact List.mem_append_right ['&', 'l', 't', ';'] (ih (h.resolve_left (by decide)))
  | case3 t ih =>
    rw [unescaped, List.mem_cons] at h
    exact List.mem_append_right ['&', 'g', 't', ';'] (ih (h.resolve_left (by decide)))
  | case4 c t hamp hlt hgt ih =>
    rw [unescaped.eq_4 c t hamp hlt hgt, List.mem_cons] at h
    rw [List.mem_cons]
    exact h.imp_right ih
  | case5 => exact h

/-- The `defaultNote` on a default whose literal holds no backtick is rendered as one line, with the
escaped literal between the markers of a span. -/
theorem render_defaultNote {shown : Text} (hone : OneLine shown) (hfree : backtick ∉ shown) :
    render (defaultNote shown) =
      ["Defaults to " ++ inlineOpen ++ escaped shown ++ inlineClose ++ "."] := by
  have hbegins : defaultNote shown =
      'D' :: ("efaults to " ++ backtick :: shown ++ backtick :: ".".toList) := rfl
  have hends : defaultNote shown = "Defaults to " ++ backtick :: shown ++ [backtick] ++ ['.'] := by
    rw [List.append_assoc _ [backtick]]
    rfl
  have hnote : lines (defaultNote shown) = [defaultNote shown] := by
    have hfeed : '\n' ∉ defaultNote shown := by
      unfold defaultNote
      simp only [List.mem_append, List.mem_cons, not_or]
      exact ⟨⟨by decide, by decide, hone⟩, by decide, by decide⟩
    rw [lines, splitOn_of_not_mem hfeed]
  -- The note begins with a letter and ends with a point, so nothing is trimmed and no fence read.
  have hstrip : strip (defaultNote shown) = defaultNote shown := by
    refine strip_eq_self ?_ ?_
    · rw [hbegins]
      rintro c ⟨⟩
      decide
    · rw [hends, List.getLast?_concat]
      rintro c ⟨⟩
      decide
  have hunfenced : Unfenced (defaultNote shown) := by
    rw [Unfenced, hnote, List.forall_mem_singleton, hstrip, hbegins]
    rintro ⟨rest, hfence⟩
    exact absurd (List.cons.inj hfence).1 (by decide)
  have hne : defaultNote shown ≠ [] := by
    rw [hbegins]
    exact List.cons_ne_nil _ _
  have hescaped : escaped (defaultNote shown) =
      "Defaults to " ++ backtick :: (escaped shown ++ backtick :: ".".toList) := by
    have hwords : escaped "Defaults to " = "Defaults to " := by decide
    have hliteral : escaped (backtick :: shown) = backtick :: escaped shown := rfl
    have hpoint : escaped (backtick :: ".".toList) = backtick :: ".".toList := by decide
    have hparts : escaped (defaultNote shown) =
        escaped "Defaults to " ++ escaped (backtick :: shown) ++
          escaped (backtick :: ".".toList) := by
      unfold defaultNote escaped
      rw [List.flatMap_append, List.flatMap_append]
    rw [hparts, hwords, hliteral, hpoint, List.append_assoc, List.cons_append]
  have hfront : backtick ∉ "Defaults to ".toList := by decide
  rw [render_of_unfenced hne hunfenced, hnote, List.map_singleton, hstrip, hescaped,
    markSpans_append hfront, markSpans, if_pos rfl,
    markSpans_append (backtick_not_mem_escaped hfree), markSpans, if_pos rfl]
  have hpoint : markSpans (!!false) ".".toList = ".".toList := by decide
  rw [hpoint]
  simp only [List.append_assoc]
  rfl

end Comment

/-- A backtick in a default that a line lets be read, by `ReadsDefault`, stands in the line, as
undoing escapes brings none in. -/
theorem ReadsDefault.backtick_mem {shown line : Text} (h : ReadsDefault shown line)
    (hmem : backtick ∈ shown) : backtick ∈ line := by
  obtain ⟨between, rfl, -, rfl⟩ := h
  have hbetween := Comment.mem_of_backtick_mem_unescaped between hmem
  simp only [List.mem_append, hbetween, or_true, true_or]

/-- The default is read, in the sense of `ReadsDefault`, from the lines of its note, and from no
other rendered line, unless one of its strings holds a backtick. -/
theorem readsDefault_rendered_iff {strings : List Text} {shown : Text}
    (h : ShowsStrings strings shown) {rendered : List Text}
    (hrendered : ∀ line ∈ rendered, ∃ t, line ∈ render t)
    (hnote : ∀ line ∈ render (defaultNote shown), line ∈ rendered) :
    (∃ line ∈ rendered, ReadsDefault shown (indentUnit ++ line)) ↔ ∀ t ∈ strings, backtick ∉ t := by
  have hbackticks : (∀ t ∈ strings, backtick ∉ t) ↔ backtick ∉ shown := by
    rw [h.backticks]
    simp
  rw [hbackticks]
  constructor
  · rintro ⟨line, hline, hread⟩ hmem
    obtain ⟨t, ht⟩ := hrendered line hline
    -- The indentation and a rendered line hold no backtick, so a default with one cannot be read
    -- back.
    have hunit : backtick ∉ indentUnit := by decide
    rcases List.mem_append.mp (hread.backtick_mem hmem) with hmem | hmem
    · exact hunit hmem
    · exact Comment.backtick_not_mem_of_mem_render ht hmem
  · intro hfree
    have hlines := Comment.render_defaultNote h.oneLine hfree
    refine ⟨_, hnote _ (by rw [hlines]; exact List.mem_cons_self), escaped shown, rfl, ?_,
      Comment.unescaped_escaped shown⟩
    -- Markers begin with an angle bracket, which has been escaped in the shown text.
    intro m hm hpart
    obtain ⟨name, rfl, -⟩ := Comment.exists_marker_eq hm
    exact (Comment.bracket_not_mem_escaped shown).1 (hpart.subset List.mem_cons_self)

/-! ### Docstrings -/

namespace Operation

/-- A `paramHead` begins with a colon, and so it is no line that a default is read from. -/
theorem head?_paramHead (name rest : Text) : (paramHead name ++ rest).head? = some ':' := by
  unfold paramHead
  rw [headStart_eq]
  rfl

/-- The field of an optional attribute whose default is shown, with the rendered `defaultNote`
behind its other lines. -/
theorem optionalField_eq (doc : Documentation) {a : Attribute} {shown : Text}
    (hvalue : a.defaultValue ≠ .nothing) (hshown : a.defaultValue.shownDefault a.tag = .ok shown) :
    optionalField doc a =
      .ok ((paramHead (parameter a.name) ++ ' ' :: "Optional argument.".toList) ::
        (render (describe doc.attributes a.name) ++ render (defaultNote shown)).map
          fun line => if line.isEmpty then [] else indentUnit ++ line) := by
  have hfirst : render "Optional argument." = ["Optional argument.".toList] := by decide
  rw [optionalField, defaultLines_eq_map hvalue, hshown, hfirst]
  rfl

/-- The `optionalField` of an optional attribute stands in the docstring as a whole. -/
theorem isInfix_docstringLines {op : Operation} {doc : Documentation} {a : Attribute}
    (ha : a ∈ op.classification.optional) {field lines : List Text}
    (hfield : optionalField doc a = .ok field) (h : docstringLines op doc = .ok lines) :
    field <:+: lines := by
  obtain ⟨fields, hfields, h⟩ := (bind_eq_ok_iff _ _ _).mp h
  cases h
  obtain ⟨front, behind, hparts⟩ := List.append_of_mem (mem_of_mapM hfields ha hfield)
  have hflat : field <:+: fields.flatten := by
    rw [hparts, List.flatten_append, List.flatten_cons]
    exact ⟨front.flatten, behind.flatten, List.append_assoc ..⟩
  exact hflat.trans ((List.suffix_append _ _).isInfix.trans
    ((List.prefix_append _ _).isInfix.trans (List.prefix_append _ _).isInfix))

/-- There are `docstringLines` if the defaults of all optional attributes were made for their tags.
-/
theorem exists_docstringLines {op : Operation} (doc : Documentation)
    (h : ∀ a ∈ op.classification.optional, a.DefaultMade) :
    ∃ lines, docstringLines op doc = .ok lines := by
  have hfields : ∃ fields, op.classification.optional.mapM (optionalField doc) = .ok fields := by
    refine exists_mapM_eq_ok_iff.mpr fun a ha => ?_
    obtain ⟨v, stored, hstored, hplain⟩ := h a ha
    by_cases hvalue : a.defaultValue = .nothing
    · exact ⟨_, by rw [optionalField, defaultLines, hvalue]; rfl⟩
    · obtain ⟨shown, hshown, -⟩ := (madeFor_plain hstored).exists_shown
      rw [← hplain] at hshown
      exact ⟨_, optionalField_eq doc hvalue hshown⟩
  obtain ⟨fields, hfields⟩ := hfields
  rw [docstringLines, hfields]
  exact ⟨_, rfl⟩

/-- The default of an optional attribute can be read back from its `optionalField`, which begins
with the name of its parameter, exactly when no string in the default holds a backtick. This holds
of every default that was made for its own type tag, unless it has no plain form and is not shown.
The field stands in the docstring, which can be written if all defaults were made in this way. -/
theorem exists_readsDefault_iff (op : Operation) (doc : Documentation) {a : Attribute}
    (ha : a ∈ op.classification.optional) (hmade : a.DefaultMade)
    (hvalue : a.defaultValue ≠ .nothing) :
    ∃ shown field, a.defaultValue.shownDefault a.tag = .ok shown ∧
      optionalField doc a = .ok field ∧
      field.head? = some (paramHead (parameter a.name) ++ " Optional argument.") ∧
      (∀ lines, docstringLines op doc = .ok lines → field <:+: lines) ∧
      ((∀ b ∈ op.classification.optional, b.DefaultMade) →
        ∃ lines, docstringLines op doc = .ok lines) ∧
      ((∃ line ∈ field, ReadsDefault shown line) ↔
        ∀ t ∈ a.defaultValue.strings, backtick ∉ t) := by
  obtain ⟨v, stored, hstored, hplain⟩ := hmade
  obtain ⟨shown, hshown, hstrings⟩ := (madeFor_plain hstored).exists_shown
  rw [← hplain] at hshown hstrings
  have hfield := optionalField_eq doc hvalue hshown
  refine ⟨shown, _, hshown, hfield, rfl, fun lines => isInfix_docstringLines ha hfield,
    exists_docstringLines doc, ?_⟩
  have hrendered : ∀ line ∈ render (describe doc.attributes a.name) ++ render (defaultNote shown),
      ∃ t, line ∈ render t :=
    List.forall_mem_append.mpr ⟨fun line hline => ⟨_, hline⟩, fun line hline => ⟨_, hline⟩⟩
  -- Behind the first line the field holds rendered lines, indented.
  have hread := readsDefault_rendered_iff hstrings hrendered fun line hline =>
    List.mem_append_right _ hline
  rw [← hread]
  constructor
  · rintro ⟨line, hline, hreads⟩
    obtain ⟨between, heq, -⟩ := id hreads
    rcases List.mem_cons.mp hline with rfl | hline
    · -- The first line begins with the colon of its head.
      have hcolon := head?_paramHead (parameter a.name) (' ' :: "Optional argument.".toList)
      have hblank : indentUnit = ' ' :: "   " := by decide
      rw [heq, hblank] at hcolon
      exact absurd (Option.some.inj hcolon) (by decide)
    · obtain ⟨rendered, hmem, rfl⟩ := List.mem_map.mp hline
      split at hreads
      · next hempty =>
        rw [if_pos hempty] at heq
        cases heq
      · exact ⟨rendered, hmem, hreads⟩
  · rintro ⟨line, hline, hreads⟩
    obtain ⟨between, heq, -⟩ := id hreads
    refine ⟨indentUnit ++ line, List.mem_cons_of_mem _ (List.mem_map.mpr ⟨line, hline, ?_⟩), hreads⟩
    have hfilled : line.isEmpty = false := by
      rw [List.append_cancel_left heq]
      rfl
    rw [hfilled]
    rfl

namespace Sample

/-- The strings that separate the parts of another, if none are given. It is the attribute of
`split`. -/
def separators (defaults : List Text) : Attribute where
  name := "separators"
  tag := "list(string)"
  hasDefault := true
  defaultValue := .list (defaults.map .text)

/-- An operation that takes strings apart, with the given strings as the default of its attribute
`separators`. -/
def split (defaults : List Text) : Operation where
  name := "Split"
  attributes := [separators defaults]

end Sample

/-- Markers, escapes and line feeds in the default of the `separators` are read back. -/
theorem exists_readsDefault_split :
    ∃ shown field, Value.shownDefault (Sample.separators ["</c>", "&\n"]).defaultValue
        "list(string)" = .ok shown ∧
      optionalField { name := "Split" } (Sample.separators ["</c>", "&\n"]) = .ok field ∧
      ∃ line ∈ field, ReadsDefault shown line := by
  have hmade : (Sample.separators ["</c>", "&\n"]).DefaultMade :=
    ⟨.list [.text "</c>", .text "&\n"], _, rfl, rfl⟩
  obtain ⟨shown, field, hshown, hfield, -, -, -, hread⟩ :=
    exists_readsDefault_iff (Sample.split ["</c>", "&\n"]) { name := "Split" }
      List.mem_cons_self hmade nofun
  exact ⟨shown, field, hshown, hfield, hread.mpr (by decide)⟩

/-- A backtick in a default is not read back: it ends the span behind `['`, and the one behind the
literal opens another. -/
theorem not_readsDefault_split :
    Sample.separators ["\x60"] ∈ (Sample.split ["\x60"]).classification.optional ∧
      (Sample.separators ["\x60"]).DefaultMade ∧
      (Sample.separators ["\x60"]).defaultValue.shownDefault "list(string)" = .ok "['\x60']" ∧
      ∃ lines, docstringLines (Sample.split ["\x60"]) { name := "Split" } = .ok lines ∧
        ∀ line ∈ lines, ¬ReadsDefault "['\x60']" line := by
  have hmade : (Sample.separators ["\x60"]).DefaultMade := ⟨.list [.text "\x60"], _, rfl, rfl⟩
  obtain ⟨lines, hlines, hfree⟩ : ∃ lines,
      docstringLines (Sample.split ["\x60"]) { name := "Split" } = .ok lines ∧
        ∀ line ∈ lines, backtick ∉ line := by
    refine ⟨_, rfl, ?_⟩
    -- The note on the name is long: written out, it is not decoded again at each step.
    delta nameNote
    repeat rw [String.toList_ofList]
    decide +kernel
  refine ⟨List.mem_cons_self, hmade, rfl, lines, hlines, fun line hline hread => ?_⟩
  exact hfree line hline (hread.backtick_mem (by decide))

end Operation

end TypedOps
