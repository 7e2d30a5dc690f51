import TypedOps.Catalog.Signature
import TypedOps.Emit.Docstring
import TypedOps.Proofs.Catalog.Storable
import TypedOps.Proofs.Support.Except

/-!
# `TypedOps.Proofs.Operation.Default`: which defaults documentation can show

The tag of an attribute and the value of its default are independent of each other in a
catalog. `Value.Suits` says in the open when they go together: a default of type `float` has to
be a number, one of type `list(float)` a sequence of numbers, and one of type `list(type)` a
sequence of texts. Every other tag takes every value.

* `Value.exists_literal_iff`: a value has a literal exactly when it is `Value.Writable`, without
  byte strings and long integers.
* `Value.exists_shownDefault_iff`: a writable value is shown exactly when it suits its tag.
* `Catalog.AttributeValue.writable_plain`: the plain value of a storable default is writable.
  Strings are decoded, so there are no byte strings in it, and its integers have sixty-four bits.
* `exists_docstringLines_iff`: so the docstring of an operation with such defaults can be written
  exactly when the default of each of its optional attributes suits its tag.
-/

set_option autoImplicit false

namespace TypedOps

/-- An integer is written out exactly when it is below the power of ten with `Integer.digitLimit`
zeros, whatever its sign. -/
theorem Integer.isLong_eq_false_iff (i : Int) :
    isLong i = false ↔ i.natAbs < 10 ^ digitLimit := by
  rw [isLong, decide_eq_false_iff_not, Nat.not_lt]
  exact Nat.length_toDigits_le_iff (by decide) (by decide)

namespace Value

/-- A value that a float can be made of. An integer may be too large for one, as `Format.double` has
only so many exponents. -/
def IsNumber : Value → Prop
  | .float _ | .bool _ => True
  | .int i => ∀ negative, Floating.Format.double.ofInt i ≠ .infinite negative
  | _ => False

/-- A `Value` that is a text, as the names of element types are. -/
def IsText : Value → Prop
  | .text _ => True
  | _ => False

/-- A value whose `items` are all of a kind, if it has items at all. -/
def EachItem (kind : Value → Prop) (v : Value) : Prop :=
  ∃ vs, v.items = .ok vs ∧ ∀ item ∈ vs, kind item

/-- A value that `shownDefault` can show for the given tag, as far as its kind goes. -/
def Suits (tag : Text) (v : Value) : Prop :=
  (TypeTag.split tag = ("type".toList, true) → v.EachItem IsText) ∧
    (TypeTag.split tag = ("float".toList, false) → v.IsNumber) ∧
    (TypeTag.split tag = ("float".toList, true) → v.EachItem IsNumber)

/-- To ask a value for a text by `asText` gives one exactly where the value is a text. -/
theorem exists_asText_iff (v : Value) : (∃ t, v.asText = .ok t) ↔ v.IsText := by
  cases v <;> simp [asText, IsText]

/-- To ask a value for a float by `asShownFloat` gives one exactly where the value is a number. -/
theorem exists_asShownFloat_iff (v : Value) : (∃ x, v.asShownFloat = .ok x) ↔ v.IsNumber := by
  have hfloat : (∃ x, v.asShownFloat = .ok x) ↔ ∃ x, v.asFloat = .ok x := by
    rw [asShownFloat]
    cases v.asFloat <;> simp [bind, Except.bind, pure, Except.pure]
  rw [hfloat]
  cases v with
  | int i =>
    simp only [asFloat, IsNumber]
    split <;> simp_all
  | _ => simp [asFloat, IsNumber]

/-- A value that can be written out as a literal: no part of it has a `literalFault?`, as a byte
string or a long integer has. -/
def Writable (v : Value) : Prop := ∀ part ∈ v.parts, literalFault? part = none

/-- The `partsAmong` several values are the parts of one of them. -/
theorem mem_partsAmong {items : List Value} {part : Value} :
    part ∈ partsAmong items ↔ ∃ item ∈ items, part ∈ item.parts := by
  induction items with
  | nil => simp [partsAmong]
  | cons item items ih =>
    rw [partsAmong, List.mem_append, ih]
    simp

/-- A list is `Writable` exactly when all its items are. -/
theorem writable_list_iff {items : List Value} :
    (Value.list items).Writable ↔ ∀ item ∈ items, item.Writable := by
  constructor
  · exact fun h item hitem part hpart => h part (mem_partsAmong.mpr ⟨item, hitem, hpart⟩)
  · intro h part hpart
    obtain ⟨item, hitem, hpart⟩ := mem_partsAmong.mp hpart
    exact h item hitem part hpart

/-- A tuple has the parts of the list of its items, so it is `Writable` exactly when all its items
are. -/
theorem writable_tuple_iff {items : List Value} :
    (Value.tuple items).Writable ↔ ∀ item ∈ items, item.Writable :=
  writable_list_iff

/-- A value without parts is `Writable` where `literalFault?` has nothing against it. -/
theorem writable_of_parts_eq {v : Value} (hparts : v.parts = [v]) (h : literalFault? v = none) :
    v.Writable := by
  intro part hpart
  rw [hparts, List.mem_singleton] at hpart
  rw [hpart, h]

/-- For an integer that is not long `literalFault?` finds no fault. -/
theorem literalFault?_int {i : Int} (h : Integer.isLong i = false) :
    literalFault? (.int i) = none := by
  simp [literalFault?, inlineFault?, h]

/-- The literal of a `Writable` value is its spelling. -/
theorem literal_eq_spelled {v : Value} (h : v.Writable) : v.literal = .ok v.spelled := by
  rw [literal, List.findSome?_eq_none_iff.mpr h]

/-- A value has a literal exactly when it is `Writable`. -/
theorem exists_literal_iff (v : Value) : (∃ t, v.literal = .ok t) ↔ v.Writable := by
  refine ⟨fun ⟨t, ht⟩ => List.findSome?_eq_none_iff.mp ?_, fun h => ⟨_, literal_eq_spelled h⟩⟩
  rw [literal] at ht
  split at ht
  · cases ht
  · assumption

/-- Whatever is `Writable` can be put into running text: `Value.inline` refuses less than
`Value.literal`. -/
theorem exists_inline {v : Value} (h : v.Writable) : ∃ t, v.inline = .ok t := by
  have hparts : v.parts.findSome? inlineFault? = none := by
    refine List.findSome?_eq_none_iff.mpr fun part hpart => ?_
    cases part with
    | bytes content => rfl
    | _ => exact h _ hpart
  unfold inline
  split
  · exact ⟨_, rfl⟩
  · rw [hparts]
    exact ⟨_, rfl⟩

/-- A float that is shown in place of a value is `Writable`. -/
theorem writable_of_asShownFloat {v shown : Value} (h : v.asShownFloat = .ok shown) :
    shown.Writable := by
  obtain ⟨x, -, h⟩ := (bind_eq_ok_iff ..).mp h
  cases h
  exact writable_of_parts_eq rfl rfl

/-- What is made of what is asked of each of the `items` of a value can be had exactly when each
item is of the kind to be asked. -/
theorem exists_ofItems_iff {α : Type} {ask : Value → Except Fault α} {kind : Value → Prop}
    (hask : ∀ v, (∃ a, ask v = .ok a) ↔ kind v) {make : List α → Except Fault Text}
    (hmake : ∀ (vs : List Value) (as : List α), vs.mapM ask = .ok as → ∃ t, make as = .ok t)
    (v : Value) :
    (∃ t, (do make (← (← v.items).mapM ask)) = Except.ok t) ↔ v.EachItem kind := by
  simp only [EachItem, bind_eq_ok_iff, ← hask]
  constructor
  · rintro ⟨t, vs, hvs, as, has, -⟩
    exact ⟨vs, hvs, exists_mapM_eq_ok_iff.mp ⟨as, has⟩⟩
  · rintro ⟨vs, hvs, hitems⟩
    obtain ⟨as, has⟩ := exists_mapM_eq_ok_iff.mpr hitems
    obtain ⟨t, ht⟩ := hmake vs as has
    exact ⟨t, vs, hvs, as, has, ht⟩

/-- Floats that `asShownFloat` gives in place of the items of a list have a literal as a list. -/
theorem exists_literal_of_mapM_asShownFloat {vs shown : List Value}
    (h : vs.mapM asShownFloat = .ok shown) : ∃ t, (Value.list shown).literal = .ok t := by
  refine (exists_literal_iff _).mpr (writable_list_iff.mpr fun x hx => ?_)
  obtain ⟨w, -, hw⟩ := exists_of_mem_mapM h hx
  exact writable_of_asShownFloat hw

/-- A `Writable` value is shown exactly when it `Suits` its tag. -/
theorem exists_shownDefault_iff {v : Value} (h : v.Writable) (tag : Text) :
    (∃ t, v.shownDefault tag = .ok t) ↔ v.Suits tag := by
  simp only [shownDefault, Suits]
  -- Only the element type and whether it is a list decide how the value is shown.
  rcases TypeTag.split tag with ⟨element, isList⟩
  simp only [Prod.mk.injEq]
  by_cases htype : element = "type".toList
  · -- A single element type is shown whatever it is; several are joined as texts.
    subst htype
    cases isList with
    | false => simpa using exists_inline h
    | true =>
      rw [if_pos rfl, if_pos rfl]
      refine (exists_ofItems_iff exists_asText_iff
        (fun _ names _ => ⟨"[" ++ Text.join ", " names ++ "]", rfl⟩) v).trans ?_
      simp
  by_cases hfloat : element = "float".toList
  · subst hfloat
    cases isList with
    | false =>
      rw [if_neg htype, if_pos rfl, if_neg Bool.false_ne_true, ← exists_asShownFloat_iff]
      simp only [htype, and_true, and_false, false_imp_iff, true_imp_iff, true_and,
        Bool.false_eq_true, bind_eq_ok_iff]
      constructor
      · rintro ⟨t, shown, hshown, -⟩
        exact ⟨shown, hshown⟩
      · rintro ⟨shown, hshown⟩
        obtain ⟨t, ht⟩ := (exists_literal_iff _).mpr (writable_of_asShownFloat hshown)
        exact ⟨t, shown, hshown, ht⟩
    | true =>
      simpa using exists_ofItems_iff exists_asShownFloat_iff
        (fun vs shown hshown => exists_literal_of_mapM_asShownFloat hshown) v
  -- Any other type is shown as the plain value, whatever it is.
  · rw [if_neg htype, if_neg hfloat]
    simp only [htype, hfloat, false_and, false_imp_iff, and_self, iff_true]
    exact (exists_literal_iff v).mpr h

end Value

/-! ### Catalogs -/

namespace Catalog

/-- An integer of sixty-four bits is not long: it lies far below `10 ^ Integer.digitLimit`. -/
theorem isLong_of_fits {i : Int} (h : MachineInt.fits 64 i = true) : Integer.isLong i = false := by
  have hbound : i.natAbs < 10 ^ 19 := by
    have hpatterns : (MachineInt.patterns (64 - 1) : Int) = 9223372036854775808 := rfl
    simp only [MachineInt.fits, hpatterns, Bool.and_eq_true, decide_eq_true_eq] at h
    omega
  have hlimit : 19 ≤ Integer.digitLimit := by decide
  exact (Integer.isLong_eq_false_iff i).mpr
    (Nat.lt_of_lt_of_le hbound (Nat.pow_le_pow_right (by decide) hlimit))

/-- An integer of sixty-four bits is `Writable`. -/
theorem writable_int {i : Int} (h : MachineInt.fits 64 i = true) : (Value.int i).Writable :=
  Value.writable_of_parts_eq rfl (Value.literalFault?_int (isLong_of_fits h))

/-- The plain value of a storable shape is `Writable`. -/
theorem Shape.writable_plain {s : Shape} (h : s.Storable) : s.plain.Writable := by
  rw [Shape.plain]
  split
  · exact Value.writable_of_parts_eq rfl rfl
  · refine Value.writable_tuple_iff.mpr fun v hv => ?_
    obtain ⟨d, hd, rfl⟩ := List.mem_map.mp hv
    exact writable_int (h d hd)

/-- The items of a storable list are `Writable`. Whichever member they come from, only `ints` and
`shapes` hold integers. -/
theorem ListValue.writable_plainItems {items : ListValue} (h : items.Storable) :
    ∀ v ∈ items.plainItems, v.Writable := by
  -- The other members hold items that have no parts, and none of those is refused.
  have hother : ∀ {α : Type} (plain : α → Value) (members : List α),
      (∀ a, (plain a).parts = [plain a] ∧ Value.literalFault? (plain a) = none) →
      ∀ v ∈ members.map plain, v.Writable := fun plain members hplain =>
    List.forall_mem_map.mpr fun a _ => Value.writable_of_parts_eq (hplain a).1 (hplain a).2
  rw [plainItems]
  split
  · exact hother plainString _ fun _ => ⟨rfl, rfl⟩
  split
  · exact List.forall_mem_map.mpr fun i hi => writable_int (h.ints i hi)
  split
  · exact hother .float _ fun _ => ⟨rfl, rfl⟩
  split
  · exact hother .bool _ fun _ => ⟨rfl, rfl⟩
  split
  · exact hother plainType _ fun _ => ⟨rfl, rfl⟩
  · exact List.forall_mem_map.mpr fun s hs => Shape.writable_plain (h.shapes s hs)

/-- The plain value of a storable default is `Writable`. -/
theorem AttributeValue.writable_plain {v : AttributeValue} (h : v.Storable) : v.plain.Writable := by
  cases v with
  | list items => exact Value.writable_list_iff.mpr (ListValue.writable_plainItems h)
  | shape s => exact Shape.writable_plain h
  | int i => exact writable_int h
  | _ => exact Value.writable_of_parts_eq rfl rfl

end Catalog

/-! ### Docstrings -/

/-- An attribute whose default documentation can show, since its value `Suits` the tag. A default
without a plain value is not shown at all. -/
def Attribute.ShowsDefault (a : Attribute) : Prop :=
  a.defaultValue ≠ .nothing → a.defaultValue.Suits a.tag

/-- There are `defaultLines` on a default exactly when it can be shown. -/
theorem exists_defaultLines_iff {a : Attribute} (h : a.defaultValue.Writable) :
    (∃ lines, defaultLines a = .ok lines) ↔ a.ShowsDefault := by
  rw [defaultLines, Attribute.ShowsDefault]
  split
  · next hnothing => simp [hnothing]
  · next hvalue =>
    rw [exists_map_eq_ok_iff, Value.exists_shownDefault_iff h]
    exact ⟨fun hsuits _ => hsuits, fun hshows => hshows hvalue⟩

/-- There are `docstringLines` exactly when the default of each optional attribute can be shown. -/
theorem exists_docstringLines_iff {op : Operation}
    (h : ∀ a ∈ op.attributes, a.defaultValue.Writable) (doc : Documentation) :
    (∃ lines, docstringLines op doc = .ok lines) ↔
      ∀ a ∈ op.classification.optional, a.ShowsDefault := by
  have hfields : (∃ lines, docstringLines op doc = .ok lines) ↔
      ∃ fields, op.classification.optional.mapM (optionalField doc) = .ok fields :=
    exists_map_eq_ok_iff _ _
  rw [hfields, exists_mapM_eq_ok_iff]
  refine forall₂_congr fun a ha => ?_
  have hdeclared : a ∈ op.attributes :=
    (List.mem_filter.mp (List.mem_filter.mp ha).1).1
  rw [← exists_defaultLines_iff (h a hdeclared), optionalField, exists_map_eq_ok_iff]

end TypedOps
