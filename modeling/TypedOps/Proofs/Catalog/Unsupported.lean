import TypedOps.Catalog.Construct
import TypedOps.Operation.TypeTag
import TypedOps.Proofs.Support.Except
import TypedOps.Proofs.Text.Pieces

/-!
# `TypedOps.Proofs.Catalog.Unsupported`: tags that no default can be stored for

Six element types have simple values. A tag of another one is refused with a message that names the
tag, and no fault of a value has that message (`ofValue_eq_unsupportedType_iff`). But a tag that
begins like a list is refused at its first item only, so no items are stored under any such tag. And
its last code point is taken for the closing bracket, whatever it is, while the type mapper looks at
it. `refuses_iff` says where this makes a difference.
-/

set_option autoImplicit false

namespace TypedOps.Catalog

/-- The six element types with simple values, for which `AttributeValue.ofValue` can store
something. -/
def storableElements : List Text := ["int", "float", "bool", "string", "type", "shape"]

/-- What `AttributeValue.ofValue` takes for the element of a tag, and whether it takes the tag for a
list. The closing bracket is dropped unseen. -/
def storedElement (tag : Text) : Text × Bool :=
  match Text.afterStart? "list(" tag with
  | some rest => (rest.dropLast, true)
  | none => (tag, false)

/-- No default can be made of a value under a tag by `AttributeValue.ofValue`, and the message says
that this is so because of the tag. -/
def Refuses (v : Value) (tag : Text) : Prop :=
  ∃ fault, AttributeValue.ofValue v tag = .error fault ∧
    fault.message? = some ("Cannot build a default for attribute type " ++ tag)

/-- A value with items to walk through, as `storedList` does. The tag of a list is only judged where
there is such an item. -/
def HasItems (v : Value) : Prop := ∃ items, storedItems v = .ok items ∧ items ≠ []

/-! ### Faults of values -/

/-- A computation whose `ConstructFault`s are about a value, and not about a tag. -/
def BlamesValue {α : Type} (x : Except ConstructFault α) : Prop :=
  ∀ tag, x ≠ .error (.unsupportedType tag)

section
variable {α β : Type} {x : Except ConstructFault α}

theorem BlamesValue.map (h : BlamesValue x) (f : α → β) : BlamesValue (x.map f) :=
  fun tag hfault => h tag ((map_eq_error_iff f x _).mp hfault)

theorem BlamesValue.bind (h : BlamesValue x) {f : α → Except ConstructFault β}
    (hf : ∀ a, BlamesValue (f a)) : BlamesValue (x >>= f) := by
  intro tag hfault
  rcases (bind_eq_error_iff x f _).mp hfault with hfault | ⟨a, -, hfault⟩
  · exact h tag hfault
  · exact hf a tag hfault

theorem blamesValue_ok (a : α) : BlamesValue (.ok a : Except ConstructFault α) := nofun

theorem blamesValue_mapM {f : α → Except ConstructFault β} (h : ∀ a, BlamesValue (f a))
    (xs : List α) : BlamesValue (xs.mapM f) := by
  intro tag hfault
  obtain ⟨-, a, -, -, -, hfault⟩ := (mapM_eq_error_iff f xs _).mp hfault
  exact h a tag hfault

/-- Items that are stored one by one and then put into a list value give a computation that
`BlamesValue`, if storing a single item does. -/
theorem blamesValue_items {f : α → Except ConstructFault β} (h : ∀ a, BlamesValue (f a))
    (xs : List α) (member : List β → ListValue) :
    BlamesValue (do return member (← xs.mapM f)) :=
  (blamesValue_mapM h xs).bind fun bs => blamesValue_ok (member bs)

end

theorem blamesValue_storedInt (bits : Nat) (v : Value) : BlamesValue (storedInt bits v) := by
  intro tag hfault
  unfold storedInt at hfault
  split at hfault
  · split at hfault <;> cases hfault
  · cases hfault

theorem blamesValue_storedFloat (v : Value) : BlamesValue (storedFloat v) := by
  intro tag hfault
  unfold storedFloat at hfault
  split at hfault
  · cases hfault
  · cases hfault
  · split at hfault <;> cases hfault
  · cases hfault

theorem blamesValue_storedBool (v : Value) : BlamesValue (storedBool v) := by
  intro tag hfault
  unfold storedBool at hfault
  split at hfault
  · cases hfault
  · split at hfault <;> cases hfault
  · cases hfault

theorem blamesValue_storedString (v : Value) : BlamesValue (storedString v) := by
  intro tag hfault
  unfold storedString at hfault
  split at hfault <;> cases hfault

theorem blamesValue_storedType (v : Value) : BlamesValue (storedType v) := by
  intro tag hfault
  unfold storedType at hfault
  split at hfault
  · unfold dataTypeNumber at hfault
    split at hfault <;> cases hfault
  · exact blamesValue_storedInt 32 v tag hfault

theorem blamesValue_storedItems (v : Value) : BlamesValue (storedItems v) := by
  intro tag hfault
  unfold storedItems at hfault
  split at hfault <;> cases hfault

theorem blamesValue_storedShape (v : Value) : BlamesValue (storedShape v) := by
  unfold storedShape
  split
  · exact blamesValue_ok _
  · refine (blamesValue_storedItems v).bind fun items => ?_
    exact (blamesValue_mapM (blamesValue_storedInt 64) items).bind fun sizes => blamesValue_ok _

/-! ### Tags that are refused -/

variable {v : Value} {tag element : Text}

/-- A tag that does not begin with `list(` is its own element. -/
theorem storedElement_of_none (h : Text.afterStart? "list(" tag = none) :
    storedElement tag = (tag, false) := by
  rw [storedElement, h]

/-- A tag that begins with `list(` is taken for a list, and what stands behind loses its last code
point. -/
theorem storedElement_of_some {rest : Text} (h : Text.afterStart? "list(" tag = some rest) :
    storedElement tag = (rest.dropLast, true) := by
  rw [storedElement, h]

/-- Items of one of the `storableElements` are stored, or the fault is about the value. -/
theorem blamesValue_storedList (helement : element ∈ storableElements) (items : List Value) :
    BlamesValue (storedList tag element items) := by
  simp only [storableElements, List.mem_cons, List.not_mem_nil, or_false] at helement
  rcases helement with rfl | rfl | rfl | rfl | rfl | rfl
  · exact blamesValue_items (blamesValue_storedInt 64) items fun ints => { ints := ints }
  · exact blamesValue_items blamesValue_storedFloat items fun floats => { floats := floats }
  · exact blamesValue_items blamesValue_storedBool items fun bools => { bools := bools }
  · exact blamesValue_items blamesValue_storedString items fun strings => { strings := strings }
  · exact blamesValue_items blamesValue_storedType items fun types => { types := types }
  · exact blamesValue_items blamesValue_storedShape items fun shapes => { shapes := shapes }

/-- Of an element type that is not among the `storableElements`, only the empty list is stored. With
the first item the tag is to blame. -/
theorem storedList_of_not_mem (helement : element ∉ storableElements) (items : List Value) :
    storedList tag element items =
      if items.isEmpty then .ok {} else .error (.unsupportedType tag) := by
  simp only [storableElements, List.mem_cons, List.not_mem_nil, or_false, not_or] at helement
  obtain ⟨hint, hfloat, hbool, hstring, htype, hshape⟩ := helement
  rw [storedList, if_neg hint, if_neg hfloat, if_neg hbool, if_neg hstring, if_neg htype,
    if_neg hshape]

/-- The fault of `storedList` blames the tag for a list of items exactly if the element is none of
the six and there are some. -/
theorem storedList_eq_unsupportedType_iff (tag element : Text) (items : List Value) :
    storedList tag element items = .error (.unsupportedType tag) ↔
      element ∉ storableElements ∧ items ≠ [] := by
  by_cases helement : element ∈ storableElements
  · simp [helement, blamesValue_storedList helement items tag]
  · rw [storedList_of_not_mem helement]
    cases items <;> simp [helement]

/-- Under one of the six tags, `ofValue` stores a single value or gives a fault that is about the
value. -/
theorem blamesValue_ofValue (hrest : Text.afterStart? "list(" tag = none)
    (htag : tag ∈ storableElements) (v : Value) : BlamesValue (AttributeValue.ofValue v tag) := by
  rw [AttributeValue.ofValue, hrest]
  simp only [storableElements, List.mem_cons, List.not_mem_nil, or_false] at htag
  rcases htag with rfl | rfl | rfl | rfl | rfl | rfl
  · exact (blamesValue_storedInt 64 v).map AttributeValue.int
  · exact (blamesValue_storedFloat v).map AttributeValue.float
  · exact (blamesValue_storedBool v).map AttributeValue.bool
  · exact (blamesValue_storedString v).map AttributeValue.string
  · exact (blamesValue_storedType v).map AttributeValue.type
  · exact (blamesValue_storedShape v).map AttributeValue.shape

/-- Under a tag that is none of the `storableElements` and no list, no value is stored, and the tag
is to blame. -/
theorem ofValue_of_not_mem (hrest : Text.afterStart? "list(" tag = none)
    (htag : tag ∉ storableElements) (v : Value) :
    AttributeValue.ofValue v tag = .error (.unsupportedType tag) := by
  simp only [storableElements, List.mem_cons, List.not_mem_nil, or_false, not_or] at htag
  obtain ⟨hint, hfloat, hbool, hstring, htype, hshape⟩ := htag
  rw [AttributeValue.ofValue, hrest]
  simp only [if_neg hint, if_neg hfloat, if_neg hbool, if_neg hstring, if_neg htype,
    if_neg hshape]

/-- A tag is to blame exactly if its `storedElement` is none of the six, and, where it is taken for
a list, there are items. -/
theorem ofValue_eq_unsupportedType_iff (v : Value) (tag : Text) :
    AttributeValue.ofValue v tag = .error (.unsupportedType tag) ↔
      (storedElement tag).1 ∉ storableElements ∧
        ((storedElement tag).2 = true → HasItems v) := by
  -- Whether a tag is taken for a list is decided by its beginning alone, so the two cases are those
  -- of `ofValue`.
  cases hrest : Text.afterStart? "list(" tag with
  | none =>
    rw [storedElement_of_none hrest]
    by_cases htag : tag ∈ storableElements
    · simp [htag, blamesValue_ofValue hrest htag v tag]
    · simp [htag, ofValue_of_not_mem hrest htag v]
  | some rest =>
    rw [storedElement_of_some hrest, AttributeValue.ofValue, hrest]
    simp only [bind_eq_error_iff, storedList_eq_unsupportedType_iff]
    constructor
    · rintro (hfault | ⟨items, hitems, ⟨helement, hne⟩ | ⟨list, -, hfault⟩⟩)
      · exact absurd hfault (blamesValue_storedItems v tag)
      · exact ⟨helement, fun _ => ⟨items, hitems, hne⟩⟩
      · cases hfault
    · rintro ⟨helement, hhas⟩
      obtain ⟨items, hitems, hne⟩ := hhas trivial
      exact .inr ⟨items, hitems, .inl ⟨helement, hne⟩⟩

/-- Of all faults, only `unsupportedType` has the message that names the tag. -/
theorem refuses_iff_unsupportedType (v : Value) (tag : Text) :
    Refuses v tag ↔ AttributeValue.ofValue v tag = .error (.unsupportedType tag) := by
  constructor
  · rintro ⟨fault, hfault, hmessage⟩
    cases fault with
    | unsupportedType tag' =>
      obtain rfl := List.append_cancel_left (Option.some.inj hmessage)
      exact hfault
    | unknownDataType | wrongKind | outOfRange | overflow => cases hmessage
  · exact fun hfault => ⟨_, hfault, rfl⟩

/-! ### The two readings of a tag -/

/-- The type mapper takes a tag apart by `TypeTag.split`, and `storedElement` agrees with it just
when the tag is closed or does not begin like a list. -/
theorem storedElement_eq_split_iff (tag : Text) :
    storedElement tag = TypeTag.split tag ↔
      (Text.startsWith tag "list(" = true → Text.endsWith tag ")" = true) := by
  rw [TypeTag.split, Text.startsWith]
  cases hrest : Text.afterStart? "list(" tag with
  | none => simp [storedElement_of_none hrest]
  | some rest =>
    rw [storedElement_of_some hrest]
    cases Text.endsWith tag ")" <;> simp

/-- A tag that begins with `list(` is not the name of one of the six element types. -/
theorem not_mem_storableElements {rest : Text} (h : Text.afterStart? "list(" tag = some rest) :
    tag ∉ storableElements := by
  rw [Text.eq_append_of_afterStart? h]
  simp [storableElements]

/-- A default is refused because of its tag exactly if `storedElement` finds none of the six element
types in it and, where the tag is taken for a list, there are items. It finds what the type mapper
finds, unless the tag begins like a list and is not closed. To refuse what the type mapper's reading
has no simple values for would be the same, save for tags that begin like a list: one with the name
of a type of the six has to be closed for that, and with any other the value has to have items. -/
theorem refuses_iff (v : Value) (tag : Text) :
    (Refuses v tag ↔ (storedElement tag).1 ∉ storableElements ∧
        ((storedElement tag).2 = true → HasItems v)) ∧
      (storedElement tag = TypeTag.split tag ↔
        (Text.startsWith tag "list(" = true → Text.endsWith tag ")" = true)) ∧
      ((Refuses v tag ↔ (TypeTag.split tag).1 ∉ storableElements) ↔
        (Text.startsWith tag "list(" = true →
          if (storedElement tag).1 ∈ storableElements then Text.endsWith tag ")" = true
          else HasItems v)) := by
  have hrefuses := (refuses_iff_unsupportedType v tag).trans (ofValue_eq_unsupportedType_iff v tag)
  refine ⟨hrefuses, storedElement_eq_split_iff tag, ?_⟩
  rw [hrefuses, TypeTag.split, Text.startsWith]
  cases hrest : Text.afterStart? "list(" tag with
  | none => simp [storedElement_of_none hrest]
  | some rest =>
    have htag := not_mem_storableElements hrest
    rw [storedElement_of_some hrest]
    by_cases helement : rest.dropLast ∈ storableElements
    · cases Text.endsWith tag ")" <;> simp [helement, htag]
    · cases Text.endsWith tag ")" <;> simp [helement, htag]

/-- Whether a tag `Refuses` a value does not follow from its element alone: without items a list of
functions is stored, and so are items under a tag that is not closed, which is the name of no
element type. -/
theorem refuses_iff_fails :
    ¬(Refuses (.list []) "list(func)" ↔ (TypeTag.split "list(func)").1 ∉ storableElements) ∧
      AttributeValue.ofValue (.list []) "list(func)" = .ok (.list {}) ∧
      ¬(Refuses (.list [.int 1]) "list(intx" ↔
        (TypeTag.split "list(intx").1 ∉ storableElements) ∧
      AttributeValue.ofValue (.list [.int 1]) "list(intx" = .ok (.list { ints := [1] }) ∧
      storedElement "list(intx" ≠ TypeTag.split "list(intx" := by
  have hfunctions : AttributeValue.ofValue (.list []) "list(func)" = .ok (.list {}) := rfl
  have hunclosed : AttributeValue.ofValue (.list [.int 1]) "list(intx" =
      .ok (.list { ints := [1] }) := rfl
  refine ⟨fun h => ?_, hfunctions, fun h => ?_, hunclosed, by decide⟩
  · obtain ⟨fault, hfault, -⟩ := h.mpr (by decide)
    rw [hfunctions] at hfault
    cases hfault
  · obtain ⟨fault, hfault, -⟩ := h.mpr (by decide)
    rw [hunclosed] at hfault
    cases hfault

end TypedOps.Catalog
