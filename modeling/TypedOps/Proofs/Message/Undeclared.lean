import TypedOps.Proofs.Message.Reads
import TypedOps.Proofs.Message.WellFormed

/-!
# `TypedOps.Proofs.Message.Undeclared`: fields that a type does not declare

`Enlarges` says how the bytes of a message may grow without a change of what they mean to a type
that declares some field numbers: well-formed records with other numbers may be put between the
records, and messages in it may grow alike, with new lengths in front of them. What stands in front
of such a place has to be well-formed, so that the place is one between two records. The type stores
the same (`Schema.overlooks_enlarges`).

The other half is about records that are declared. A record changes the part of the message that its
field is about, and no other (`Field.Keeps`). So the messages of a repeated field are all there in
the end (`Schema.exists_mem_of_foldlM`), and so is a single message that is given, even if it is
given by what its type does not declare (`Schema.message_of_foldlM`).
-/

set_option autoImplicit false

namespace TypedOps

open Wire (WellFormed Record Payload)

/-! ### Growing messages -/

/-- Bytes that grow by records with numbers that are not declared, and inside messages as `nested`
says for the field that they are in. Whatever stands behind the last change may be anything. -/
inductive Wire.Enlarges (declared : Nat → Prop) (nested : Nat → Bytes → Bytes → Prop)
    (depth : Nat) : Bytes → Bytes → Prop
  | same (bytes : Bytes) : Enlarges declared nested depth bytes bytes
  | insert {records : List Record} {added bytes bytes' : Bytes}
      (hadded : WellFormed depth records added)
      (hundeclared : ∀ record ∈ records, ¬declared record.field)
      (rest : Enlarges declared nested depth bytes bytes') :
      Enlarges declared nested depth bytes (added ++ bytes')
  | keep {records : List Record} {kept bytes bytes' : Bytes} (hkept : WellFormed depth records kept)
      (rest : Enlarges declared nested depth bytes bytes') :
      Enlarges declared nested depth (kept ++ bytes) (kept ++ bytes')
  | within {field : Nat} {content content' record record' bytes bytes' : Bytes}
      (hrecord : WellFormed depth [⟨field, .delimited content⟩] record)
      (hrecord' : WellFormed depth [⟨field, .delimited content'⟩] record')
      (hcontent : nested field content content')
      (rest : Enlarges declared nested depth bytes bytes') :
      Enlarges declared nested depth (record ++ bytes) (record' ++ bytes')

/-- Records with numbers that are not declared may come last under `Enlarges`, behind well-formed
ones. -/
theorem Wire.Enlarges.append {declared : Nat → Prop} {nested : Nat → Bytes → Bytes → Prop}
    {depth : Nat} {records added : List Record} {bytes bytes' : Bytes}
    (hbytes : WellFormed depth records bytes) (hadded : WellFormed depth added bytes')
    (hundeclared : ∀ record ∈ added, ¬declared record.field) :
    Wire.Enlarges declared nested depth bytes (bytes ++ bytes') := by
  have h := Wire.Enlarges.keep hbytes
    (.insert hadded hundeclared (.same [] : Wire.Enlarges declared nested depth [] []))
  rwa [List.append_nil, List.append_nil] at h

/-- A written record grows with its content, if that grows as `nested` says. -/
theorem Wire.Enlarges.delimitedRecord {declared : Nat → Prop} {nested : Nat → Bytes → Bytes → Prop}
    {depth field : Nat} {content content' : Bytes} (hfield : IsFieldNumber field)
    (hlength : content.length < lengthLimit) (hlength' : content'.length < lengthLimit)
    (hcontent : nested field content content') :
    Wire.Enlarges declared nested depth (Wire.delimitedRecord field content)
      (Wire.delimitedRecord field content') := by
  have h := Wire.Enlarges.within (wellFormed_delimitedRecord hfield hlength)
    (wellFormed_delimitedRecord hfield hlength') hcontent
    (.same [] : Wire.Enlarges declared nested depth [] [])
  rwa [List.append_nil, List.append_nil] at h

namespace Schema

variable {M N : Type} {schema : Schema M} {depth : Nat}

/-- Whether a message type, given by its `Schema`, declares a field number. -/
def Declares (schema : Schema M) (number : Nat) : Prop :=
  ∃ field ∈ schema.fields, field.number = number

instance (number : Nat) : Decidable (schema.Declares number) :=
  inferInstanceAs (Decidable (∃ field ∈ schema.fields, field.number = number))

/-- The bytes of a message that grow. `parts` says how those of a message grow that is in the field
of a number, with the levels of messages and groups that are left to it. -/
def Enlarges (schema : Schema M) (parts : Nat → Nat → Bytes → Bytes → Prop) (depth : Nat) :
    Bytes → Bytes → Prop :=
  Wire.Enlarges schema.Declares (parts (depth - 1)) depth

/-- Records with numbers that are not declared are passed over by `loadRecord`, any number of them.
-/
theorem foldlM_loadRecord_undeclared {records : List Record}
    (h : ∀ record ∈ records, ¬schema.Declares record.field) (m : M) :
    records.foldlM (schema.loadRecord depth) m = some m := by
  induction records with
  | nil => rfl
  | cons record records ih =>
    rw [List.forall_mem_cons] at h
    have hnone : schema.fields.find? (·.number == record.field) = none :=
      List.find?_eq_none.mpr fun field hfield hnumber =>
        h.1 ⟨field, hfield, eq_of_beq hnumber⟩
    rw [List.foldlM_cons, loadRecord, hnone]
    exact ih h.2

/-- Well-formed records are stored by `merge?` one by one, and then what stands behind them. -/
theorem merge?_append {records : List Record} {bytes : Bytes} (h : WellFormed depth records bytes)
    (m : M) (rest : Bytes) :
    schema.merge? depth m (bytes ++ rest) =
      (records.foldlM (schema.loadRecord depth) m).bind (schema.merge? depth · rest) := by
  rw [merge?, h.records?_append]
  cases hrest : Wire.records? depth rest with
  | none =>
    cases records.foldlM (schema.loadRecord depth) m <;> simp [merge?, hrest]
  | some more =>
    simp only [Option.map_eq_map, Option.map_some, Option.bind_eq_bind, Option.bind_some,
      List.foldlM_append, merge?, hrest]

/-- Well-formed records with nothing behind them are stored by `merge?` one by one. -/
theorem merge?_of_wellFormed {records : List Record} {bytes : Bytes}
    (h : WellFormed depth records bytes) (m : M) :
    schema.merge? depth m bytes = records.foldlM (schema.loadRecord depth) m := by
  have hmerge : schema.merge? depth m (bytes ++ []) = _ := merge?_append h m []
  rw [List.append_nil] at hmerge
  rw [hmerge]
  cases records.foldlM (schema.loadRecord depth) m <;> rfl

/-- The type stores the same of bytes that change in the given way, in every message that `merge?`
adds them to. -/
def Overlooks (schema : Schema M) (change : Nat → Bytes → Bytes → Prop) : Prop :=
  ∀ {depth : Nat} {content content' : Bytes}, change depth content content' →
    ∀ m, schema.merge? depth m content' = schema.merge? depth m content

section
variable {change : Nat → Bytes → Bytes → Prop} {sub : Schema N} {content content' : Bytes}

/-- A schema that `Overlooks` a change stores the same of a part of another message that changes so.
-/
theorem Overlooks.mergeNested?_eq (h : schema.Overlooks change)
    (hchange : change (depth - 1) content content') (m : M) :
    schema.mergeNested? depth m content' = schema.mergeNested? depth m content := by
  cases depth with
  | zero => rfl
  | succ depth => exact h hchange m

/-- A field with a single message stores the same, if the schema of the message `Overlooks` the
change. -/
theorem Overlooks.load_message (h : sub.Overlooks change)
    (hchange : change (depth - 1) content content') {number : Nat} {name : Text}
    {get : M → Option N} {set : M → N → M} (m : M) :
    (Field.message number name sub get set).load depth (.delimited content') m =
      (Field.message number name sub get set).load depth (.delimited content) m :=
  congrArg (Option.map (set m)) (h.mergeNested?_eq hchange _)

/-- A message member of a choice stores the same, if the schema of the message `Overlooks` the
change. -/
theorem Overlooks.load_choiceMessage (h : sub.Overlooks change)
    (hchange : change (depth - 1) content content') {number : Nat} {name : Text} {taken : M → Bool}
    {get : M → Option N} {set : M → N → M} (m : M) :
    (Field.choiceMessage number name sub taken get set).load depth (.delimited content') m =
      (Field.choiceMessage number name sub taken get set).load depth (.delimited content) m :=
  congrArg (Option.map (set m)) (h.mergeNested?_eq hchange _)

/-- A field of messages stores the same, if the schema of the messages `Overlooks` the change. -/
theorem Overlooks.load_messages (h : sub.Overlooks change)
    (hchange : change (depth - 1) content content') {number : Nat} {name : Text}
    {get : M → List N} {set : M → List N → M} (m : M) :
    (Field.messages number name sub get set).load depth (.delimited content') m =
      (Field.messages number name sub get set).load depth (.delimited content) m :=
  congrArg (Option.map _) (h.mergeNested?_eq hchange _)

end

/-- A schema `Overlooks` that bytes grow by what it does not declare, if its fields do so for the
messages in them. -/
theorem overlooks_enlarges {parts : Nat → Nat → Bytes → Bytes → Prop}
    (hparts : ∀ {depth number : Nat} {content content' : Bytes},
      parts (depth - 1) number content content' →
        ∀ m, schema.loadRecord depth m ⟨number, .delimited content'⟩ =
          schema.loadRecord depth m ⟨number, .delimited content⟩) :
    schema.Overlooks (schema.Enlarges parts) := by
  intro depth content content' h m
  induction h generalizing m with
  | same => rfl
  | insert hadded hundeclared _ ih =>
    rw [merge?_append hadded, foldlM_loadRecord_undeclared hundeclared, Option.bind_some, ih]
  | keep hkept _ ih =>
    rw [merge?_append hkept, merge?_append hkept]
    exact congrArg _ (funext ih)
  | within hrecord hrecord' hcontent _ ih =>
    rw [merge?_append hrecord, merge?_append hrecord', List.foldlM_cons, List.foldlM_cons,
      hparts hcontent]
    exact congrArg _ (funext ih)

end Schema

/-! ### What a record leaves alone -/

namespace Field

variable {M N α β : Type} {number : Nat} {name : Text} {view : M → β}

/-- What the field stores by `load` does not change the view of the message. -/
def Keeps (field : Field M) (view : M → β) : Prop :=
  ∀ (depth : Nat) (payload : Payload) (m m' : M), field.load depth payload m = some m' →
    view m' = view m

/-- A `scalar` field keeps any view that setting the scalar does not change. -/
@[simp] theorem keeps_scalar {kind : Scalar α} {get : M → α} {set : M → α → M}
    (h : ∀ m v, view (set m v) = view m) : (scalar number name kind get set).Keeps view := by
  intro depth payload m m' hload
  simp only [scalar] at hload
  split at hload
  · cases hload
    exact h _ _
  · cases hload
  · cases hload
    rfl

/-- A field of `scalars` keeps any view that setting them does not change. -/
@[simp] theorem keeps_scalars {kind : Scalar α} {get : M → List α} {set : M → List α → M}
    (h : ∀ m v, view (set m v) = view m) : (scalars number name kind get set).Keeps view := by
  intro depth payload m m' hload
  simp only [scalars] at hload
  split at hload
  · cases hload
    exact h _ _
  · cases hload
  · split at hload
    · obtain ⟨vs, -, rfl⟩ := Option.map_eq_some_iff.mp hload
      exact h _ _
    · cases hload
      rfl

/-- A `message` field keeps any view that setting the message does not change. -/
@[simp] theorem keeps_message {sub : Schema N} {get : M → Option N} {set : M → N → M}
    (h : ∀ m n, view (set m n) = view m) : (message number name sub get set).Keeps view := by
  intro depth payload m m' hload
  simp only [message] at hload
  split at hload
  · obtain ⟨n, -, rfl⟩ := Option.map_eq_some_iff.mp hload
    exact h _ _
  · cases hload
    rfl

/-- A field of `messages` keeps any view that setting them does not change. -/
@[simp] theorem keeps_messages {sub : Schema N} {get : M → List N} {set : M → List N → M}
    (h : ∀ m n, view (set m n) = view m) : (messages number name sub get set).Keeps view := by
  intro depth payload m m' hload
  simp only [messages] at hload
  split at hload
  · obtain ⟨n, -, rfl⟩ := Option.map_eq_some_iff.mp hload
    exact h _ _
  · cases hload
    rfl

end Field

namespace Schema

variable {M N β : Type} {schema : Schema M} {depth number : Nat} {m m' : M}

/-- A record with another number leaves the view of a field alone under `loadRecord`, if the other
fields do. -/
theorem view_loadRecord {view : M → β}
    (hkeeps : ∀ field ∈ schema.fields, field.number ≠ number → field.Keeps view) {record : Record}
    (hne : record.field ≠ number) (h : schema.loadRecord depth m record = some m') :
    view m' = view m := by
  rw [loadRecord] at h
  split at h
  · next field hfound =>
    have hnumber := List.find?_some hfound
    have hnumber : field.number = record.field := eq_of_beq hnumber
    exact hkeeps field (List.mem_of_find?_eq_some hfound) (by rwa [hnumber]) depth _ _ _ h
  · cases h
    rfl

section
variable {name : Text} {sub : Schema N} {get : M → List N} {set : M → List N → M}
  (hfield : schema.fields.find? (·.number == number) =
    some (Field.messages number name sub get set))
  (hpart : IsPart get set)
  (hkeeps : ∀ field ∈ schema.fields, field.number ≠ number → field.Keeps get)
include hfield hpart hkeeps

/-- A record only ever adds, by `loadRecord`, to the messages of a repeated field, and one of the
field adds the message that it holds. -/
theorem mem_of_loadRecord {record : Record} (h : schema.loadRecord depth m record = some m') :
    (∀ n ∈ get m, n ∈ get m') ∧
      ∀ content, record = ⟨number, .delimited content⟩ →
        ∃ n ∈ get m', sub.mergeNested? depth sub.empty content = some n := by
  -- What a record does depends on its number, and for this field on its wire type as well.
  by_cases hnumber : record.field = number
  · obtain ⟨field, payload⟩ := record
    subst hnumber
    rw [loadRecord, hfield] at h
    simp only [Field.messages] at h
    split at h
    · next content =>
      obtain ⟨n, hn, rfl⟩ := Option.map_eq_some_iff.mp h
      rw [hpart.get_set]
      refine ⟨fun n' hn' => List.mem_append_left _ hn', fun content' hcontent => ?_⟩
      cases hcontent
      exact ⟨n, List.mem_append_right _ (List.mem_singleton_self n), hn⟩
    · next hother =>
      cases h
      exact ⟨fun _ => id, fun content hcontent => absurd (congrArg Record.payload hcontent)
        (hother content)⟩
  · rw [view_loadRecord hkeeps hnumber h]
    exact ⟨fun _ => id, fun content hcontent => absurd (congrArg Record.field hcontent) hnumber⟩

/-- When records are loaded one by one with `loadRecord`, every message of a repeated field is there
in the end, by induction over the records. -/
theorem exists_mem_of_foldlM {records : List Record}
    (h : records.foldlM (schema.loadRecord depth) m = some m') :
    (∀ n ∈ get m, n ∈ get m') ∧
      ∀ content, ⟨number, .delimited content⟩ ∈ records →
        ∃ n ∈ get m', sub.mergeNested? depth sub.empty content = some n := by
  -- The property is carried from each message to the next one. A record adds to the first it meets.
  induction records generalizing m with
  | nil =>
    cases h
    exact ⟨fun _ => id, nofun⟩
  | cons record records ih =>
    rw [List.foldlM_cons] at h
    obtain ⟨next, hnext, h⟩ := Option.bind_eq_some_iff.mp h
    obtain ⟨hkept, hadded⟩ := mem_of_loadRecord hfield hpart hkeeps hnext
    obtain ⟨hlater, hmore⟩ := ih h
    refine ⟨fun n hn => hlater n (hkept n hn), fun content hcontent => ?_⟩
    rcases List.mem_cons.mp hcontent with hrecord | hcontent
    · obtain ⟨n, hn, hmerge⟩ := hadded content hrecord.symm
      exact ⟨n, hlater n hn, hmerge⟩
    · exact hmore content hcontent

end

section
variable {name : Text} {sub : Schema N} {get : M → Option N} {set : M → N → M}
  (hfield : schema.fields.find? (·.number == number) =
    some (Field.message number name sub get set))
  (hkeeps : ∀ field ∈ schema.fields, field.number ≠ number → field.Keeps get)
  (hset : ∀ m n, get (set m n) = some n)
include hfield hkeeps hset

/-- A record of the field is merged by `loadRecord` into the message that is there, and any other
leaves it. -/
theorem message_loadRecord {record : Record} (h : schema.loadRecord depth m record = some m') :
    (∃ content n, record = ⟨number, .delimited content⟩ ∧
        sub.mergeNested? depth ((get m).getD sub.empty) content = some n ∧ get m' = some n) ∨
      (∀ content, record ≠ ⟨number, .delimited content⟩) ∧ get m' = get m := by
  -- As above, but there is only one message, and the content is merged into it.
  by_cases hnumber : record.field = number
  · obtain ⟨field, payload⟩ := record
    subst hnumber
    rw [loadRecord, hfield] at h
    simp only [Field.message] at h
    split at h
    · next content =>
      obtain ⟨n, hn, rfl⟩ := Option.map_eq_some_iff.mp h
      exact .inl ⟨content, n, rfl, hn, hset m n⟩
    · next hother =>
      cases h
      exact .inr ⟨fun content hcontent => hother content (congrArg Record.payload hcontent), rfl⟩
  · exact .inr ⟨fun content hcontent => hnumber (congrArg Record.field hcontent),
      view_loadRecord hkeeps hnumber h⟩

/-- When records are loaded one by one with `loadRecord`, a message that is given is there in the
end. If all that is given for it leaves the empty message as it is, it is the empty message. -/
theorem message_of_foldlM {records : List Record}
    (h : records.foldlM (schema.loadRecord depth) m = some m')
    (hempty : ∀ content, ⟨number, .delimited content⟩ ∈ records →
      sub.mergeNested? depth sub.empty content = some sub.empty)
    (hm : (get m).getD sub.empty = sub.empty)
    (hgiven : (∃ content, ⟨number, .delimited content⟩ ∈ records) ∨ get m = some sub.empty) :
    get m' = some sub.empty := by
  induction records generalizing m with
  | nil =>
    cases h
    -- Without records nothing is left to be given, so the message has been there from the start.
    rcases hgiven with ⟨content, hcontent⟩ | hgiven
    · cases hcontent
    · exact hgiven
  | cons record records ih =>
    rw [List.foldlM_cons] at h
    obtain ⟨next, hnext, hrest⟩ := Option.bind_eq_some_iff.mp h
    have hlater : ∀ content, ⟨number, .delimited content⟩ ∈ records →
        sub.mergeNested? depth sub.empty content = some sub.empty :=
      fun content hcontent => hempty content (List.mem_cons_of_mem record hcontent)
    -- A record of the field makes the message the empty one. From then on it is there.
    rcases message_loadRecord hfield hkeeps hset hnext with
      ⟨content, n, rfl, hmerge, hnew⟩ | ⟨hother, hsame⟩
    · rw [hm, hempty content List.mem_cons_self] at hmerge
      cases hmerge
      exact ih hrest hlater (by rw [hnew]; rfl) (.inr hnew)
    · refine ih hrest hlater (by rw [hsame, hm]) ?_
      rw [hsame]
      refine hgiven.imp_left fun ⟨content, hcontent⟩ => ⟨content, ?_⟩
      exact (List.mem_cons.mp hcontent).resolve_left fun heq => hother content heq.symm

end

/-- Bytes of a message that hold nothing its type `Declares`. -/
def Hollow (schema : Schema M) (depth : Nat) (content : Bytes) : Prop :=
  ∃ records, WellFormed depth records content ∧ ∀ record ∈ records, ¬schema.Declares record.field

/-- Bytes that are `Hollow` change nothing about a message they are merged into. -/
theorem merge?_of_hollow {content : Bytes} (h : schema.Hollow depth content) (m : M) :
    schema.merge? depth m content = some m := by
  obtain ⟨records, hrecords, hundeclared⟩ := h
  rw [merge?_of_wellFormed hrecords, foldlM_loadRecord_undeclared hundeclared]

end Schema

end TypedOps
