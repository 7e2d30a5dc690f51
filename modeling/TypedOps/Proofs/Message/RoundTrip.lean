import TypedOps.Message.Field
import TypedOps.Proofs.Message.Reads
import TypedOps.Proofs.Message.Wire
import TypedOps.Proofs.Number.MachineInt
import TypedOps.Proofs.Number.Single
import TypedOps.Proofs.Support.Lists

/-!
# `TypedOps.Proofs.Message.RoundTrip`: messages are read back

What a field writes for a message is a sequence of records with its number, and reading them carries
the field's value over into another message (`Field.Carries`). A message type is read back when its
fields, one after another, carry everything over into the empty message (`Transfers`).

The records say nothing about where a message ends, so everything is said in front of any rest
(`Schema.Merges`). Two things bound what is read back: a length takes five bytes, and messages nest
only so deep (`Schema.RoundTrips`).
-/

set_option autoImplicit false

namespace TypedOps

open Wire (Payload ReadsAs IsFieldNumber lengthLimit)

/-! ### Records one by one -/

section
variable {M : Type}

/-- Records with the given number, each of which `ReadsAs` one, whose payloads take a message to
another one by one. -/
inductive Loads (number : Nat) (load : Payload → M → Option M) : Bytes → M → M → Prop
  | nil (m : M) : Loads number load [] m m
  | cons {record rest : Bytes} {payload : Payload} {m m' m'' : M}
      (hread : ReadsAs record ⟨number, payload⟩) (hload : load payload m = some m')
      (hrest : Loads number load rest m' m'') : Loads number load (record ++ rest) m m''

/-- A single record `Loads` what its payload does to a message. -/
theorem Loads.single {number : Nat} {load : Payload → M → Option M} {record : Bytes}
    {payload : Payload} {m m' : M} (hread : ReadsAs record ⟨number, payload⟩)
    (hload : load payload m = some m') : Loads number load record m m' := by
  have h := Loads.cons hread hload (.nil m')
  rwa [List.append_nil] at h

namespace Schema

variable {schema : Schema M} {depth : Nat} {m m' m'' : M} {bytes bytes' : Bytes}

/-- The bytes take one message to another in `merge?`, whatever stands behind them. -/
def Merges (schema : Schema M) (depth : Nat) (bytes : Bytes) (m m' : M) : Prop :=
  ∀ rest, schema.merge? depth m (bytes ++ rest) = schema.merge? depth m' rest

/-- No bytes have `Merges` with the message as it is. -/
theorem merges_nil (m : M) : schema.Merges depth [] m m := fun _ => rfl

/-- Bytes in a row have `Merges`: they take a message where the first take it, and from there where
the second do. -/
theorem Merges.append (h : schema.Merges depth bytes m m')
    (h' : schema.Merges depth bytes' m' m'') :
    schema.Merges depth (bytes ++ bytes') m m'' := by
  intro rest
  rw [List.append_assoc, h, h']

/-- Bytes with nothing behind them are merged as `Merges` says. -/
theorem Merges.merge?_eq_some (h : schema.Merges depth bytes m m') :
    schema.merge? depth m bytes = some m' := by
  have h := h []
  rwa [List.append_nil] at h

/-- The bytes of one record have `Merges` with where loading the record takes a message. -/
theorem merges_record {record : Wire.Record} (hread : ReadsAs bytes record)
    (hload : schema.loadRecord depth m record = some m') : schema.Merges depth bytes m m' := by
  intro rest
  rw [merge?, merge?, Wire.records?_append hread]
  cases Wire.records? depth rest with
  | none => rfl
  | some records =>
    -- The rest is read alike on both sides; only the first record is stored in addition.
    simp only [Option.map_eq_map, Option.map_some, Option.bind_eq_bind, Option.bind_some,
      List.foldlM_cons, hload]

/-- The fields of a schema have numbers that a field can have (`IsFieldNumber`), no two the same. -/
structure Numbered (schema : Schema M) : Prop where
  isFieldNumber : ∀ field ∈ schema.fields, IsFieldNumber field.number
  nodup : (schema.fields.map (·.number)).Nodup

/-- In a schema that is `Numbered`, a field is found by its own number. -/
theorem Numbered.find?_eq_some (h : schema.Numbered) {field : Field M}
    (hfield : field ∈ schema.fields) :
    schema.fields.find? (·.number == field.number) = some field :=
  find?_key_eq_some h.nodup hfield

/-- In a schema that is `Numbered`, the records of a field take a message where loading their
payloads takes it. -/
theorem Numbered.merges (h : schema.Numbered) {field : Field M} (hfield : field ∈ schema.fields)
    (hloads : Loads field.number (field.load depth) bytes m m') :
    schema.Merges depth bytes m m' := by
  induction hloads with
  | nil m => exact merges_nil m
  | cons hread hload _ ih =>
    refine (merges_record hread ?_).append ih
    rw [loadRecord, h.find?_eq_some hfield]
    exact hload

/-- Messages that satisfy `ok` are read back from their binary form, in which at most `height`
levels of messages are. -/
def RoundTrips (schema : Schema M) (ok : M → Prop) (height : Nat) : Prop :=
  ∀ {m depth}, ok m → height ≤ depth → (schema.encode m).length < lengthLimit →
    schema.Merges depth (schema.encode m) schema.empty m

end Schema

/-! ### Fields one by one -/

/-- What the field writes for `m` carries the field's value over into another message. -/
def Field.Carries (field : Field M) (depth : Nat) (m acc acc' : M) : Prop :=
  IsFieldNumber field.number → (field.save m).length < lengthLimit →
    Loads field.number (field.load depth) (field.save m) acc acc'

/-- The fields carry everything over, one after another, each by `Field.Carries`. -/
inductive Transfers (depth : Nat) (m : M) : List (Field M) → M → M → Prop
  | nil (acc : M) : Transfers depth m [] acc acc
  | cons {field : Field M} {fields : List (Field M)} {acc acc' acc'' : M}
      (hfield : field.Carries depth m acc acc') (hfields : Transfers depth m fields acc' acc'') :
      Transfers depth m (field :: fields) acc acc''

/-- What the fields write takes a message where they carry everything over, if the fields are
`Numbered`. -/
theorem Transfers.merges {schema : Schema M} (hnumbered : schema.Numbered) {depth : Nat}
    {m acc acc' : M} {fields : List (Field M)} (h : Transfers depth m fields acc acc')
    (hfields : fields ⊆ schema.fields)
    (hlength : (fields.flatMap (·.save m)).length < lengthLimit) :
    schema.Merges depth (fields.flatMap (·.save m)) acc acc' := by
  induction h with
  | nil acc => exact Schema.merges_nil acc
  | @cons field fields acc acc' acc'' hfield _ ih =>
    rw [List.flatMap_cons, List.length_append] at hlength
    obtain ⟨hmem, hrest⟩ := List.cons_subset.mp hfields
    have hloads := hfield (hnumbered.isFieldNumber field hmem) (by omega)
    exact (hnumbered.merges hmem hloads).append (ih hrest (by omega))

/-- A schema that is `Numbered` reads its messages back when its fields carry everything over from a
message to the empty one. -/
theorem Schema.Numbered.roundTrips {schema : Schema M} (hnumbered : schema.Numbered)
    {ok : M → Prop} {height : Nat}
    (h : ∀ {m depth}, ok m → height ≤ depth → Transfers depth m schema.fields schema.empty m) :
    schema.RoundTrips ok height := fun hm hdepth hlength =>
  (h hm hdepth).merges hnumbered (List.Subset.refl _) hlength

end

/-! ### Kinds of scalars -/

section
variable {α : Type}

/-- Scalars that satisfy `ok` are read back, also when packed, and the one that is left out is
`zero`. -/
structure Scalar.RoundTrips (kind : Scalar α) (zero : α) (ok : α → Prop) : Prop where
  eq_zero : ∀ {v}, kind.isDefault v = true → v = zero
  record : ∀ {v number}, ok v → IsFieldNumber number →
    (kind.record number v).length < lengthLimit →
    ∃ payload, ReadsAs (kind.record number v) ⟨number, payload⟩ ∧
      kind.ofPayload payload = some (some v)
  packed : ∀ {item}, kind.packedItem? = some item → ∀ {vs : List α}, (∀ v ∈ vs, ok v) →
    kind.ofPayload (.delimited (vs.flatMap item)) = none ∧
      kind.packed? (vs.flatMap item) = some vs

namespace Scalar

/-- A kind stored as a varint is read back if `ofNat` undoes `toNat`. -/
theorem ofVarint_roundTrips {ofNat : Nat → α} {toNat : α → Nat} {isDefault : α → Bool}
    {read : Reader α} {inRange : α → Bool} {zero : α} {ok : α → Prop}
    (hzero : ∀ v, isDefault v = true → v = zero)
    (hlt : ∀ v, ok v → toNat v < MachineInt.patterns 64) (hback : ∀ v, ok v → ofNat (toNat v) = v) :
    (ofVarint ofNat toNat isDefault read inRange).RoundTrips zero ok where
  eq_zero h := hzero _ h
  record {v number} hv hnumber _ :=
    ⟨.varint (toNat v), Wire.readsAs_varintRecord hnumber (hlt v hv),
      congrArg (fun v => some (some v)) (hback v hv)⟩
  packed {item} hitem vs hvs := by
    cases hitem
    refine ⟨rfl, ?_⟩
    have hnumbers : ∀ n ∈ vs.map toNat, n < MachineInt.patterns 64 :=
      List.forall_mem_map.mpr fun v hv => hlt v (hvs v hv)
    have hback' : vs.map (ofNat ∘ toNat) = vs :=
      (List.map_congr_left fun v hv => hback v (hvs v hv)).trans (List.map_id vs)
    have hpacked := Wire.packedVarints?_flatMap hnumbers
    rw [List.flatMap_map] at hpacked
    show ((Wire.packedVarints? (vs.flatMap fun v => Wire.varint (toNat v))).map (·.map ofNat)) = _
    rw [hpacked, Option.map_some, List.map_map, hback']

/-- Integers of sixty-four bits are read back by `int64`, negative ones from their complement. -/
theorem int64_roundTrips : int64.RoundTrips 0 fun i => MachineInt.fits 64 i = true :=
  ofVarint_roundTrips (fun _ => eq_of_beq) (fun i _ => MachineInt.pattern_lt 64 i)
    fun _ => MachineInt.signed_pattern (by decide) (by decide)

/-- Integers of thirty-two bits are read back by `int32` from the sixty-four that are written. -/
theorem int32_roundTrips : int32.RoundTrips 0 fun i => MachineInt.fits 32 i = true :=
  ofVarint_roundTrips (fun _ => eq_of_beq) (fun i _ => MachineInt.pattern_lt 64 i)
    fun _ => MachineInt.signed_pattern (by decide) (by decide)

/-- The number of an enumeration is read back by `enumeration`, whether it has a name or not. -/
theorem enumeration_roundTrips (number? : Text → Option Int) :
    (enumeration number?).RoundTrips 0 fun i => MachineInt.fits 32 i = true :=
  ofVarint_roundTrips (fun _ => eq_of_beq) (fun i _ => MachineInt.pattern_lt 64 i)
    fun _ => MachineInt.signed_pattern (by decide) (by decide)

/-- Truth values are read back by `bool` from the numbers zero and one. -/
theorem bool_roundTrips : bool.RoundTrips false fun _ => True :=
  ofVarint_roundTrips (fun _ => eq_of_beq) (fun b _ => by cases b <;> decide)
    fun b _ => by cases b <;> rfl

/-- Numbers of single precision are read back by `float` from their bits, negative zero included. -/
theorem float_roundTrips : float.RoundTrips (Floating.zero false) Floating.Format.single.Holds where
  eq_zero h := eq_of_beq h
  record {x number} hx hnumber _ := by
    refine ⟨.fixed32 (Wire.fixed32 x.toSingleBits), Wire.readsAs_fixed32Record hnumber rfl, ?_⟩
    -- The bits fit into four bytes, so they come back, and the number with them.
    have hvalue := Wire.fixed32Value_fixed32 (Floating.toSingleBits_lt hx)
    show some (some (Floating.ofSingleBits (Wire.fixed32Value (Wire.fixed32 x.toSingleBits)))) = _
    rw [hvalue, Floating.ofSingleBits_toSingleBits hx]
  packed {item} hitem vs hvs := by
    cases hitem
    refine ⟨rfl, ?_⟩
    -- A packed list is four bytes for each number, which are cut apart again.
    have hnumbers : ∀ n ∈ vs.map Floating.toSingleBits, n < MachineInt.patterns 32 :=
      List.forall_mem_map.mpr fun x hx => Floating.toSingleBits_lt (hvs x hx)
    have hback : vs.map (Floating.ofSingleBits ∘ Floating.toSingleBits) = vs :=
      (List.map_congr_left fun x hx => Floating.ofSingleBits_toSingleBits (hvs x hx)).trans
        (List.map_id vs)
    have hpacked := Wire.packedFixed32?_flatMap hnumbers
    rw [List.flatMap_map] at hpacked
    show ((Wire.packedFixed32? (vs.flatMap fun x => Wire.fixed32 x.toSingleBits)).map
      (·.map Floating.ofSingleBits)) = _
    rw [hpacked, Option.map_some, List.map_map, hback]

/-- Byte strings are read back by `bytes` from their delimited records. -/
theorem bytes_roundTrips : bytes.RoundTrips [] fun _ => True where
  eq_zero h := eq_of_beq h
  record {content number} _ hnumber hlength :=
    have hcontent := Wire.length_lt_of_delimitedRecord hlength
    ⟨.delimited content, Wire.readsAs_delimitedRecord hnumber hcontent, rfl⟩
  packed h := by cases h

/-- Texts are read back by `text`, since their encoding is undone. -/
theorem text_roundTrips : text.RoundTrips [] fun _ => True where
  eq_zero h := eq_of_beq h
  record {t number} _ hnumber hlength :=
    have hcontent := Wire.length_lt_of_delimitedRecord hlength
    ⟨.delimited (Utf8.encode t), Wire.readsAs_delimitedRecord hnumber hcontent,
      congrArg some (Utf8.decode?_encode t)⟩
  packed h := by cases h

end Scalar

end

/-! ### Kinds of fields -/

namespace Field

variable {M N α : Type} {number depth : Nat} {name : Text} {m acc : M}

/-- A single `scalar` is carried over into a message where it has its default. -/
theorem carries_scalar {kind : Scalar α} {zero : α} {ok : α → Prop} {get : M → α}
    {set : M → α → M} (hpart : IsPart get set) (hkind : kind.RoundTrips zero ok)
    (hm : ok (get m)) (hacc : get acc = zero) :
    (scalar number name kind get set).Carries depth m acc (set acc (get m)) := by
  intro hnumber hlength
  cases hdefault : kind.isDefault (get m) with
  | true =>
    -- Nothing is written, and nothing has to be: both messages have the default.
    have hsave : (scalar number name kind get set).save m = [] := if_pos hdefault
    rw [hsave, hkind.eq_zero hdefault, ← hacc, hpart.set_get]
    exact .nil acc
  | false =>
    have hsave : (scalar number name kind get set).save m = kind.record number (get m) :=
      if_neg (by simp [hdefault])
    rw [hsave] at hlength ⊢
    obtain ⟨payload, hread, hvalue⟩ := hkind.record hm hnumber hlength
    refine .single hread ?_
    simp only [scalar, hvalue]

/-- Items with a record each, as `Loads` describes them, are put behind those that are there. -/
theorem loads_items {load : Payload → M → Option M} {record : α → Bytes} {get : M → List α}
    {set : M → List α → M} (hpart : IsPart get set) {vs : List α}
    (hitem : ∀ v ∈ vs, ∃ payload, ReadsAs (record v) ⟨number, payload⟩ ∧
      ∀ acc, load payload acc = some (set acc (get acc ++ [v]))) :
    Loads number load (vs.flatMap record) acc (set acc (get acc ++ vs)) := by
  induction vs generalizing acc with
  | nil =>
    rw [List.append_nil, hpart.set_get]
    exact .nil acc
  | cons v vs ih =>
    rw [List.forall_mem_cons] at hitem
    obtain ⟨⟨payload, hread, hload⟩, hitems⟩ := hitem
    have hrest : Loads number load (vs.flatMap record) (set acc (get acc ++ [v])) _ := ih hitems
    rw [hpart.get_set, hpart.set_set, List.append_assoc] at hrest
    exact .cons hread (hload acc) hrest

/-- In a message that has no items, those that `Loads` puts there are all there is. -/
theorem loads_all_items {load : Payload → M → Option M} {record : α → Bytes} {get : M → List α}
    {set : M → List α → M} (hpart : IsPart get set) (hacc : get acc = []) {vs : List α}
    (hitem : ∀ v ∈ vs, ∃ payload, ReadsAs (record v) ⟨number, payload⟩ ∧
      ∀ acc, load payload acc = some (set acc (get acc ++ [v]))) :
    Loads number load (vs.flatMap record) acc (set acc vs) := by
  have h : Loads number load (vs.flatMap record) acc _ := loads_items hpart hitem
  rwa [hacc, List.nil_append] at h

/-- A field of `scalars` is carried over into a message that has none of them, one by one or packed.
-/
theorem carries_scalars {kind : Scalar α} {zero : α} {ok : α → Prop} {get : M → List α}
    {set : M → List α → M} (hpart : IsPart get set) (hkind : kind.RoundTrips zero ok)
    (hm : ∀ v ∈ get m, ok v) (hacc : get acc = []) :
    (scalars number name kind get set).Carries depth m acc (set acc (get m)) := by
  intro hnumber hlength
  cases hpacked : kind.packedItem? with
  | none =>
    have hsave : (scalars number name kind get set).save m =
        (get m).flatMap (kind.record number) := by
      simp only [scalars, hpacked]
    rw [hsave] at hlength ⊢
    refine loads_all_items hpart hacc fun v hv => ?_
    have hrecord := length_le_length_flatMap (kind.record number) hv
    obtain ⟨payload, hread, hvalue⟩ :=
      hkind.record (hm v hv) hnumber (Nat.lt_of_le_of_lt hrecord hlength)
    exact ⟨payload, hread, fun acc => by simp only [scalars, hvalue]⟩
  | some item =>
    obtain ⟨hother, hvalues⟩ := hkind.packed hpacked hm
    -- One record holds all of them, and it is left out if there are none.
    cases hnone : (get m).isEmpty with
    | true =>
      have hsave : (scalars number name kind get set).save m = [] := by
        simp only [scalars, hpacked, hnone, if_true]
      rw [hsave, List.isEmpty_iff.mp hnone, ← hacc, hpart.set_get]
      exact .nil acc
    | false =>
      have hsave : (scalars number name kind get set).save m =
          Wire.delimitedRecord number ((get m).flatMap item) := by
        simp only [scalars, hpacked, hnone, Bool.false_eq_true, if_false]
      rw [hsave] at hlength ⊢
      have hcontent := Wire.length_lt_of_delimitedRecord hlength
      refine .single (Wire.readsAs_delimitedRecord hnumber hcontent) ?_
      simp only [scalars, hother, hpacked, hvalues, Option.map_some, hacc, List.nil_append]

/-- The record of a nested message holds the message, and is read by `mergeNested?` one level
further in. -/
theorem mergeNested?_encode {schema : Schema N} {ok : N → Prop} {height : Nat}
    (hschema : schema.RoundTrips ok height) (hdepth : height < depth) {n : N} (hn : ok n)
    (hlength : (Wire.delimitedRecord number (schema.encode n)).length < lengthLimit) :
    (schema.encode n).length < lengthLimit ∧
      schema.mergeNested? depth schema.empty (schema.encode n) = some n := by
  have hcontent := Wire.length_lt_of_delimitedRecord hlength
  obtain ⟨depth, rfl⟩ : ∃ d, depth = d + 1 := ⟨depth - 1, by omega⟩
  exact ⟨hcontent, (hschema hn (Nat.le_of_lt_succ hdepth) hcontent).merge?_eq_some⟩

/-- A single `message` is carried over into a message that has none. -/
theorem carries_message {schema : Schema N} {ok : N → Prop} {height : Nat}
    {get : M → Option N} {set : M → N → M} (hschema : schema.RoundTrips ok height)
    (hdepth : height < depth) (hm : ∀ n, get m = some n → ok n ∧ get acc = none) :
    (message number name schema get set).Carries depth m acc ((get m).elim acc (set acc)) := by
  intro hnumber hlength
  -- An absent message writes nothing, and one that is there a single record.
  cases hvalue : get m with
  | none =>
    have hsave : (message number name schema get set).save m = [] := by
      simp only [message, hvalue]
    rw [hsave]
    exact .nil acc
  | some n =>
    have hsave : (message number name schema get set).save m =
        Wire.delimitedRecord number (schema.encode n) := by
      simp only [message, hvalue]
    rw [hsave] at hlength ⊢
    -- The content is merged into the empty message, since the other one has none yet.
    obtain ⟨hok, hacc⟩ := hm n hvalue
    obtain ⟨hcontent, hnested⟩ := mergeNested?_encode hschema hdepth hok hlength
    refine .single (Wire.readsAs_delimitedRecord hnumber hcontent) ?_
    simp only [message, hacc, Option.getD_none, hnested, Option.map_some, Option.elim_some]

/-- The part of a structure that may or may not be a `message` is carried over into one where it is
not. -/
theorem carries_optional {schema : Schema N} {ok : N → Prop} {height : Nat}
    {get : M → Option N} {set : M → N → M} (put : M → Option N → M) (hpart : IsPart get put)
    (hset : ∀ m n, set m n = put m (some n)) (hschema : schema.RoundTrips ok height)
    (hdepth : height < depth) (hm : ∀ n, get m = some n → ok n) (hacc : get acc = none) :
    (message number name schema get set).Carries depth m acc (put acc (get m)) := by
  have hput : (get m).elim acc (set acc) = put acc (get m) := by
    cases get m with
    | none => rw [← hacc, hpart.set_get, hacc, Option.elim_none]
    | some n => exact hset acc n
  rw [← hput]
  exact carries_message hschema hdepth fun n hn => ⟨hm n hn, hacc⟩

/-- A field of `messages` is carried over into a message that has none of them, each as a record. -/
theorem carries_messages {schema : Schema N} {ok : N → Prop} {height : Nat}
    {get : M → List N} {set : M → List N → M} (hpart : IsPart get set)
    (hschema : schema.RoundTrips ok height) (hdepth : height < depth)
    (hm : ∀ n ∈ get m, ok n) (hacc : get acc = []) :
    (messages number name schema get set).Carries depth m acc (set acc (get m)) := by
  intro hnumber hlength
  refine loads_all_items hpart hacc fun n hn => ?_
  have hrecord : (Wire.delimitedRecord number (schema.encode n)).length < lengthLimit :=
    Nat.lt_of_le_of_lt
      (length_le_length_flatMap (fun n => Wire.delimitedRecord number (schema.encode n)) hn) hlength
  obtain ⟨hcontent, hnested⟩ := mergeNested?_encode hschema hdepth (hm n hn) hrecord
  refine ⟨_, Wire.readsAs_delimitedRecord hnumber hcontent, fun acc => ?_⟩
  simp only [messages, hnested, Option.map_some]

/-- A `choiceScalar` is carried over if it is the member of the choice that is set. -/
theorem carries_choiceScalar {kind : Scalar α} {zero : α} {ok : α → Prop} {taken : M → Bool}
    {get : M → Option α} {set : M → α → M} (hkind : kind.RoundTrips zero ok)
    (hm : ∀ v, get m = some v → ok v) :
    (choiceScalar number name kind taken get set).Carries depth m acc
      ((get m).elim acc (set acc)) := by
  intro hnumber hlength
  -- A member that is not set writes nothing, and the other one writes its record even if it is
  -- zero.
  cases hvalue : get m with
  | none =>
    have hsave : (choiceScalar number name kind taken get set).save m = [] := by
      simp only [choiceScalar, hvalue, Option.map_none, Option.getD_none]
    rw [hsave]
    exact .nil acc
  | some v =>
    have hsave : (choiceScalar number name kind taken get set).save m = kind.record number v := by
      simp only [choiceScalar, hvalue, Option.map_some, Option.getD_some]
    rw [hsave] at hlength ⊢
    obtain ⟨payload, hread, hback⟩ := hkind.record (hm v hvalue) hnumber hlength
    refine .single hread ?_
    simp only [choiceScalar, hback, Option.elim_some]

/-- A `choiceMessage` is carried over if it is the member of the choice that is set. -/
theorem carries_choiceMessage {schema : Schema N} {ok : N → Prop} {height : Nat}
    {taken : M → Bool} {get : M → Option N} {set : M → N → M}
    (hschema : schema.RoundTrips ok height) (hdepth : height < depth)
    (hm : ∀ n, get m = some n → ok n ∧ get acc = none) :
    (choiceMessage number name schema taken get set).Carries depth m acc
      ((get m).elim acc (set acc)) := by
  have h : (message number name schema get set).Carries depth m acc _ :=
    carries_message hschema hdepth hm
  exact h

end Field

end TypedOps
