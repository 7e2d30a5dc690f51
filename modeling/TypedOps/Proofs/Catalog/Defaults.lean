import TypedOps.Proofs.Emit.ShownDefaults
import TypedOps.Proofs.Text.Utf8

/-!
# `TypedOps.Proofs.Catalog.Defaults`: defaults come back in canonical form

A default is stored under the type tag of its attribute, and what reads it later sees the stored
value only: which member of the choice is set and, in a list, which member has items. A well-typed
value comes back all the same, in the one form that its kind has. An element type comes back by
name, a shape as a tuple, a float in single precision, and a list item by item.

* `ElementType.Takes` says which values are well-typed, and `ElementType.canonical` what they look
  like when they are read.
* `Takes.exists_int` and its like: an item is stored, and read back in canonical form. There is one
  such statement for each kind of item.
* `exists_storedList`: so is a list of items, in order. A list without items leaves no member set
  and is read as the empty list, whatever it is a list of.
* `ElementType.plain_ofValue`: both together, and what is read can be shown under its tag.

Two of the forms are worth a word. A shape of unknown rank is read as nothing, also inside a list,
and a shape without dimensions as the empty tuple. An integer given for a float is taken to a double
first, so it is rounded twice.
-/

set_option autoImplicit false

namespace TypedOps

open Catalog (AttributeValue ListValue Shape ConstructFault plainString plainType storedInt
  storedFloat storedBool storedString storedType storedShape storedItems storedList
  dataTypeNumber)

/-! ### Well-typed values -/

namespace ElementType

/-- A value that may be given for an `ElementType`. Types of the runtime are given by name or by
number, a shape by its sizes, or as nothing if its rank is unknown. -/
inductive Takes : ElementType → Value → Prop where
  | int {i : Int} (h : MachineInt.fits 64 i = true) : Takes .int (.int i)
  | bool (b : Bool) : Takes .bool (.bool b)
  | string (t : Text) : Takes .string (.text t)
  | named {name : Text} {number : Int} (h : (name, number) ∈ DataType.named) :
    Takes .type (.text name)
  | numbered {number : Int} (h : MachineInt.fits 32 number = true) : Takes .type (.int number)
  | float (x : Floating) : Takes .float (.float x)
  | whole {i : Int} (h : ∀ negative, Floating.Format.double.ofInt i ≠ .infinite negative) :
    Takes .float (.int i)
  | sizes {sizes : List Int} (h : ∀ size ∈ sizes, MachineInt.fits 64 size = true) :
    Takes .shape (.list (sizes.map .int))
  | unknownRank : Takes .shape .nothing

/-- The form in which a value that an element type `Takes` is read back: floats in single precision,
element types by name, shapes as tuples. -/
def canonical : ElementType → Value → Value
  | .type, .int number => .text (DataType.name number)
  | .float, .float x => .float (Floating.Format.single.convert x)
  | .float, .int i =>
    .float (Floating.Format.single.convert (Floating.Format.double.ofInt i))
  | .shape, .list sizes => .tuple sizes
  | _, v => v

/-- The tag of lists of an element type, as `AttributeValue.ofValue` is given it. -/
def listTag (e : ElementType) : Text := "list(" ++ e.tag ++ ")"

end ElementType

/-! ### Names and texts -/

/-- The names of the element types are distinct: those of the reference variants end in `_REF`,
and the others do not. -/
theorem DataType.nodup_names : (named.map (·.1)).Nodup := by
  have hplain : (plain.map (·.1)).Nodup ∧ ∀ name ∈ plain.map (·.1), ¬("_REF" : Text) <:+ name := by
    rw [plain]
    repeat rw [String.toList_ofList]
    decide +kernel
  obtain ⟨hdistinct, hends⟩ := hplain
  have hnames : named.map (·.1) =
      plain.map (·.1) ++ (plain.tail.map (·.1)).map (· ++ ("_REF" : Text)) := by
    rw [named, List.map_append, List.map_map, List.map_map]
    rfl
  rw [hnames]
  -- The variants are the plain names with one ending, so they are not compared again.
  refine List.nodup_append.mpr ⟨hdistinct, ?_, ?_⟩
  · exact (hdistinct.sublist ((List.tail_sublist plain).map _)).map (List.append_left_injective _)
  · rintro name hname variant hvariant rfl
    obtain ⟨front, -, rfl⟩ := List.mem_map.mp hvariant
    exact hends _ hname (List.suffix_append ..)

/-- A named element type is found by `number?` under its name, because no two have one name
(`nodup_names`). -/
theorem DataType.number?_of_mem_named {name : Text} {number : Int} (h : (name, number) ∈ named) :
    number? name = some number := by
  rw [number?, find?_key_eq_some nodup_names h, Option.map_some]

/-- A named element type is found by `DataType.name` under its number, so name and number determine
each other. -/
theorem DataType.name_of_mem_named {name : Text} {number : Int} (h : (name, number) ∈ named) :
    DataType.name number = name := by
  have hdistinct : (named.map (·.2)).Nodup := by decide +kernel
  rw [DataType.name, find?_key_eq_some hdistinct h, Option.map_some, Option.getD_some]

/-- A text is read back from its bytes by `decodeLenient`, which would also forgive malformed ones.
-/
theorem Utf8.decodeLenient_encode (t : Text) : Utf8.decodeLenient (Utf8.encode t) = t := by
  rw [decodeLenient, segments_encode, List.map_map]
  exact List.map_id' t

/-! ### Items -/

namespace ElementType

variable {v : Value}

/-- What an integer tag `Takes` is an integer of 64 bits, which is stored as it is and is its own
canonical form. -/
theorem Takes.exists_int (h : Takes .int v) :
    ∃ i, storedInt 64 v = .ok i ∧ Value.int i = canonical .int v := by
  cases h with
  | int hfits => exact ⟨_, if_pos hfits, rfl⟩

/-- What a tag of truth values `Takes` is one, which is stored as it is and is its own canonical
form. -/
theorem Takes.exists_bool (h : Takes .bool v) :
    ∃ b, storedBool v = .ok b ∧ Value.bool b = canonical .bool v := by
  cases h with
  | bool b => exact ⟨b, rfl, rfl⟩

/-- A text is stored as its bytes, and `plainString` decodes them to the same text. -/
theorem Takes.exists_string (h : Takes .string v) :
    ∃ content, storedString v = .ok content ∧ plainString content = canonical .string v := by
  cases h with
  | string t => exact ⟨_, rfl, congrArg Value.text (Utf8.decodeLenient_encode t)⟩

/-- What a float tag `Takes` is stored in single precision, which is its canonical form. An integer
given for a float is converted too. -/
theorem Takes.exists_float (h : Takes .float v) :
    ∃ x, storedFloat v = .ok x ∧ Value.float x = canonical .float v := by
  cases h with
  | float x => exact ⟨_, rfl, rfl⟩
  | @whole i hfinite =>
    refine ⟨_, ?_, rfl⟩
    -- An integer that is no double would be refused.
    rw [storedFloat]
    split
    · next negative hinfinite => exact absurd hinfinite (hfinite negative)
    · rfl

/-- What a tag of element types `Takes` is stored as a number, given by name or by number, and read
by its name if it has one. -/
theorem Takes.exists_type (h : Takes .type v) :
    ∃ number, storedType v = .ok number ∧ plainType number = canonical .type v := by
  cases h with
  | @named name number hnamed =>
    refine ⟨number, ?_, congrArg Value.text (DataType.name_of_mem_named hnamed)⟩
    rw [storedType, dataTypeNumber, DataType.number?_of_mem_named hnamed]
  | numbered hfits => exact ⟨_, if_pos hfits, rfl⟩

/-- What a shape tag `Takes` is stored dimension by dimension, or as a mark that its rank is
unknown. -/
theorem Takes.exists_shape (h : Takes .shape v) :
    ∃ s, storedShape v = .ok s ∧ s.plain = canonical .shape v := by
  cases h with
  | @sizes sizes hfits =>
    -- Every size fits in sixty-four bits, so storing it changes nothing.
    have hstored : (sizes.map Value.int).mapM (storedInt 64) = .ok (sizes.map id) := by
      rw [List.mapM_map]
      exact mapM_eq_ok_of_forall fun size hsize => if_pos (hfits size hsize)
    refine ⟨{ dimensions := sizes.map fun size => { size := size } }, ?_, ?_⟩
    · show (sizes.map Value.int).mapM (storedInt 64) >>= _ = _
      rw [hstored, List.map_id]
      rfl
    · show Value.tuple ((sizes.map _).map _) = Value.tuple (sizes.map Value.int)
      rw [List.map_map]
      rfl
  | unknownRank => exact ⟨{ unknownRank := true }, rfl, rfl⟩

end ElementType

/-! ### Lists -/

/-- Items that are stored and read back one by one are stored and read back as a list. `member` is
the member of a list value that holds them, and `plain` what is read of each. -/
theorem exists_storedList {α : Type} (member : List α → ListValue)
    {store : Value → Except ConstructFault α} {plain : α → Value} {tag element : Text}
    {items : List Value}
    (hstored : storedList tag element items = items.mapM store >>= fun as => .ok (member as))
    (hplain : ∀ as, (member as).plainItems = as.map plain) {canonical : Value → Value}
    (h : ∀ v ∈ items, ∃ a, store v = .ok a ∧ plain a = canonical v) :
    ∃ list, storedList tag element items = .ok list ∧
      list.plainItems = items.map canonical := by
  obtain ⟨as, has⟩ := exists_mapM_eq_ok_iff.mpr fun v hv => (h v hv).imp fun _ ha => ha.1
  refine ⟨member as, by rw [hstored, has]; rfl, ?_⟩
  rw [hplain]
  -- Each item has one stored form, the one that is read back.
  refine map_eq_map_of_mem_mapM (fun v hv a ha => ?_) has
  obtain ⟨a', ha', hcanonical⟩ := h v hv
  rw [ha'] at ha
  cases ha
  exact hcanonical

namespace ElementType

/-- A list of well-typed items is stored, and read in canonical form. There is one case for each
element type, by `exists_storedList` and the lemma on its single values. -/
theorem exists_list (e : ElementType) {items : List Value} (h : ∀ v ∈ items, e.Takes v)
    (tag : Text) :
    ∃ list, storedList tag e.tag items = .ok list ∧
      list.plainItems = items.map e.canonical := by
  -- A member without items is not seen, so the first one with items is looked for in vain.
  cases e with
  | int =>
    exact exists_storedList (fun ints => { ints := ints }) rfl
      (fun ints => by cases ints <;> rfl) fun v hv => (h v hv).exists_int
  | float =>
    exact exists_storedList (fun floats => { floats := floats }) rfl
      (fun floats => by cases floats <;> rfl) fun v hv => (h v hv).exists_float
  | bool =>
    exact exists_storedList (fun bools => { bools := bools }) rfl
      (fun bools => by cases bools <;> rfl) fun v hv => (h v hv).exists_bool
  | type =>
    exact exists_storedList (fun types => { types := types }) rfl
      (fun types => by cases types <;> rfl) fun v hv => (h v hv).exists_type
  | shape =>
    exact exists_storedList (fun shapes => { shapes := shapes }) rfl
      (fun shapes => by cases shapes <;> rfl) fun v hv => (h v hv).exists_shape
  | string =>
    exact exists_storedList (fun strings => { strings := strings }) rfl
      (fun strings => by cases strings <;> rfl) fun v hv => (h v hv).exists_string
  | tensor =>
    -- No value is a tensor, so there are no items.
    cases items with
    | nil => exact ⟨{}, rfl, rfl⟩
    | cons v items => cases h v List.mem_cons_self

end ElementType

/-! ### Defaults -/

/-- A value is stored under a tag, comes back in the form `read`, and that form can be shown. -/
def ReadBackAs (v : Value) (tag : Text) (read : Value) : Prop :=
  ∃ stored, AttributeValue.ofValue v tag = .ok stored ∧ stored.plain = read ∧
    ∃ shown, read.shownDefault tag = .ok shown

/-- Whatever a stored value is read as can be shown by `shownDefault`, so only the other two parts
of `ReadBackAs` are left to prove. -/
theorem readBackAs_of_ofValue {v read : Value} {tag : Text} {stored : AttributeValue}
    (h : AttributeValue.ofValue v tag = .ok stored) (hread : stored.plain = read) :
    ReadBackAs v tag read := by
  obtain ⟨shown, hshown, -⟩ := (madeFor_plain h).exists_shown
  exact ⟨stored, h, hread, shown, hread ▸ hshown⟩

/-- A value alone is stored as a member of the choice `AttributeValue`, and that member says how it
is read. -/
theorem readBackAs_of_store {α : Type} (member : α → AttributeValue) {v read : Value} {tag : Text}
    {store : Value → Except ConstructFault α} {plain : α → Value}
    (hstored : AttributeValue.ofValue v tag = (store v).map member)
    (hplain : ∀ a, (member a).plain = plain a) (h : ∃ a, store v = .ok a ∧ plain a = read) :
    ReadBackAs v tag read := by
  obtain ⟨a, ha, hread⟩ := h
  rw [ha] at hstored
  exact readBackAs_of_ofValue hstored ((hplain a).trans hread)

namespace ElementType

/-- Every element type reads a value that it `Takes` back in canonical form, by itself and as an
item of a list of any length, and what is read can be shown. -/
theorem plain_ofValue (e : ElementType) :
    (∀ v, e.Takes v → ReadBackAs v e.tag (e.canonical v)) ∧
      ∀ items, (∀ v ∈ items, e.Takes v) →
        ReadBackAs (.list items) e.listTag (.list (items.map e.canonical)) := by
  constructor
  · intro v h
    cases e with
    | int => exact readBackAs_of_store .int rfl (fun _ => rfl) h.exists_int
    | float => exact readBackAs_of_store .float rfl (fun _ => rfl) h.exists_float
    | bool => exact readBackAs_of_store .bool rfl (fun _ => rfl) h.exists_bool
    | type => exact readBackAs_of_store .type rfl (fun _ => rfl) h.exists_type
    | shape => exact readBackAs_of_store .shape rfl (fun _ => rfl) h.exists_shape
    | string => exact readBackAs_of_store .string rfl (fun _ => rfl) h.exists_string
    | tensor => cases h
  · intro items h
    obtain ⟨list, hlist, hitems⟩ := e.exists_list h e.listTag
    -- What stands between the brackets of the tag is the element type again.
    have hstored : AttributeValue.ofValue (.list items) e.listTag =
        storedList e.listTag e.tag items >>= fun list => .ok (.list list) := by
      cases e <;> rfl
    rw [hlist] at hstored
    exact readBackAs_of_ofValue hstored (congrArg Value.list hitems)

/-- A list of shapes is `ReadBackAs` the same shapes: one without dimensions, one of unknown rank,
and one with a dimension of size zero. An element type given by a number without a name is read back
as the number. -/
theorem plain_ofValue_shapes :
    ReadBackAs (.list [.list [], .nothing, .list [.int 2, .int 0]]) "list(shape)"
        (.list [.tuple [], .nothing, .tuple [.int 2, .int 0]]) ∧
      ReadBackAs (.int 26) "type" (.text "26") := by
  have hnone : ∀ size ∈ ([] : List Int), MachineInt.fits 64 size = true := by decide
  have htwo : ∀ size ∈ [2, 0], MachineInt.fits 64 size = true := by decide
  have hitems : ∀ v ∈ [Value.list [], .nothing, .list [.int 2, .int 0]], Takes .shape v := by
    intro v hv
    simp only [List.mem_cons, List.not_mem_nil, or_false] at hv
    rcases hv with rfl | rfl | rfl
    · exact .sizes hnone
    · exact .unknownRank
    · exact .sizes htwo
  exact ⟨(plain_ofValue .shape).2 _ hitems, (plain_ofValue .type).1 _ (.numbered (by decide))⟩

end ElementType

end TypedOps
