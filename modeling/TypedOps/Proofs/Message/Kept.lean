import TypedOps.Message.Field
import TypedOps.Proofs.Number.MachineInt
import TypedOps.Proofs.Number.Single
import TypedOps.Proofs.Support.Except

/-!
# `TypedOps.Proofs.Message.Kept`: what holds of every message that is read

Both forms are read piece by piece into a message that begins as `Schema.empty`: the binary form
record by record, the text form field by field. So a property holds of whatever is read if it holds
of the empty message and every field keeps it (`Schema.Preserves`).

* `Scalar.Yields`: a property of the values that a kind of scalar gives, in either form. A number
  has as many bits as its kind says, and a float is one of single precision.
* `Field.Preserves`: storing a payload and reading what stands behind a name both keep a property of
  messages. There is a lemma for each way to make a field (`preserves_scalar` to
  `preserves_choiceMessage`), which asks only that `set` keeps the property.
* `Schema.Preserves.of_decode?` and `Schema.Preserves.of_ofText`: what is read has the property. The
  inductions are over the records and over the fuel of `Reader.fieldsFrom`.
-/

set_option autoImplicit false

namespace TypedOps

open Wire (Payload)

/-! ### Numbers -/

/-- The low bits of any number stand, by `signed`, for an integer that fits into them. -/
theorem MachineInt.fits_signed {bits : Nat} (hbits : 0 < bits) (n : Nat) :
    fits bits (signed bits n) = true := by
  obtain ⟨bits, rfl⟩ : ∃ k, bits = k + 1 := ⟨bits - 1, by omega⟩
  have hdouble := patterns_succ bits
  have hlow : n % patterns (bits + 1) < patterns (bits + 1) := Nat.mod_lt _ (patterns_pos _)
  simp only [fits, signed, Nat.add_sub_cancel, Bool.and_eq_true, decide_eq_true_eq]
  split <;> omega

/-- Any thirty-two bits stand, by `ofSingleBits`, for a number of single precision. -/
theorem Floating.ofSingleBits_holds (bits : Nat) : Format.single.Holds (ofSingleBits bits) := by
  have hpart : bits % 0x800000 < 0x800000 := Nat.mod_lt _ (by decide)
  have hexponent : bits / 0x800000 % 256 < 256 := Nat.mod_lt _ (by decide)
  simp only [ofSingleBits]
  split
  · split <;> trivial
  split
  · exact Format.ofDyadic_holds (by decide) _ (by simp [Format.single]; omega) (by decide)
      (by decide) (by simp [Format.single])
  · -- The bit in front of the part is not stored, so the mantissa has one bit more than the part.
    exact Format.ofDyadic_holds (by decide) _ (by simp [Format.single]; omega)
      (by simp [Format.single]; omega) (by simp [Format.single]; omega)
      (by simp [Format.single]; omega)

variable {M N α : Type}

/-! ### Scalars -/

/-- Every value that a kind of scalar gives has the property `P`: from a payload, from packed items
and from a text, where it has to be in range as well. -/
structure Scalar.Yields (kind : Scalar α) (P : α → Prop) : Prop where
  ofPayload : ∀ {payload v}, kind.ofPayload payload = some (some v) → P v
  packed : ∀ {content vs}, kind.packed? content = some vs → ∀ v ∈ vs, P v
  read : ∀ {tokens v rest}, kind.read tokens = .ok (v, rest) → kind.inRange v = true → P v

namespace Scalar

/-- Every kind of scalar `Yields` values with the trivial property, which serves fields without a
bound. -/
theorem yields_true (kind : Scalar α) : kind.Yields fun _ => True :=
  ⟨fun _ => trivial, fun _ _ _ => trivial, fun _ _ => trivial⟩

/-- A kind stored as a varint gives what `ofNat` gives, or what is read from a text. -/
theorem ofVarint_yields {ofNat : Nat → α} {toNat : α → Nat} {isDefault inRange : α → Bool}
    {reader : Reader α} {P : α → Prop} (hnat : ∀ n, P (ofNat n))
    (hread : ∀ {tokens v rest}, reader tokens = .ok (v, rest) → inRange v = true → P v) :
    (ofVarint ofNat toNat isDefault reader inRange).Yields P where
  ofPayload {payload v} h := by
    cases payload with
    | varint n =>
      cases h
      exact hnat n
    | _ => cases h
  packed {content vs} h := by
    obtain ⟨ns, -, rfl⟩ := Option.map_eq_some_iff.mp h
    exact List.forall_mem_map.mpr fun n _ => hnat n
  read := hread

/-- What is read by its spelling is what `value?` makes of some spelling. -/
theorem exists_of_spelling {value? : Text → Option α} {tokens rest : List Token} {v : α}
    (h : Reader.spelling value? tokens = .ok (v, rest)) : ∃ t, value? t = some v := by
  cases tokens with
  | nil => cases h
  | cons token tokens =>
    rw [Reader.spelling] at h
    split at h
    · next w hw =>
      cases h
      obtain ⟨t, -, ht⟩ := Option.bind_eq_some_iff.mp hw
      exact ⟨t, ht⟩
    · cases h

/-- An integer that is read by `integerThat?` from a text as one of so many bits fits into them. -/
theorem fits_of_spelling {fits : Int → Bool} {tokens rest : List Token} {i : Int}
    (h : Reader.spelling (Reader.integerThat? fits) tokens = .ok (i, rest)) : fits i = true := by
  obtain ⟨t, ht⟩ := exists_of_spelling h
  exact (Option.filter_eq_some_iff.mp ht).2

/-- The kind `int64` gives integers of sixty-four bits. -/
theorem int64_yields : int64.Yields fun i => MachineInt.fits 64 i = true :=
  ofVarint_yields (MachineInt.fits_signed (by decide)) fun h _ => fits_of_spelling h

/-- The kind `int32` gives integers of thirty-two bits. -/
theorem int32_yields : int32.Yields fun i => MachineInt.fits 32 i = true :=
  ofVarint_yields (MachineInt.fits_signed (by decide)) fun h _ => fits_of_spelling h

/-- An enumeration gives numbers of thirty-two bits: one that is read from a text is checked by
`Scalar.inRange`. -/
theorem enumeration_yields (number? : Text → Option Int) :
    (enumeration number?).Yields fun i => MachineInt.fits 32 i = true :=
  ofVarint_yields (MachineInt.fits_signed (by decide)) fun _ hrange => hrange

/-- The kind `float` gives numbers of single precision: the binary form stores no other, and the
text form converts. -/
theorem float_yields : float.Yields Floating.Format.single.Holds where
  ofPayload {payload v} h := by
    cases payload with
    | fixed32 content =>
      cases h
      exact Floating.ofSingleBits_holds _
    | _ => cases h
  packed {content vs} h := by
    obtain ⟨ns, -, rfl⟩ := Option.map_eq_some_iff.mp h
    exact List.forall_mem_map.mpr fun n _ => Floating.ofSingleBits_holds n
  read {tokens v rest} h _ := by
    obtain ⟨t, ht⟩ := exists_of_spelling h
    obtain ⟨x, -, rfl⟩ := Option.map_eq_some_iff.mp ht
    exact Floating.Format.convert_holds (by decide) x

/-- What `readStorable` lets through is in range, so the property of its kind holds. -/
theorem Yields.of_readStorable {kind : Scalar α} {P : α → Prop} (h : kind.Yields P)
    {store : α → Except ReadFault Unit} {tokens rest : List Token} {v : α}
    (hread : kind.readStorable store tokens = .ok (v, rest)) : P v := by
  obtain ⟨⟨w, behind⟩, hw, hread⟩ := (bind_eq_ok_iff ..).mp hread
  obtain ⟨-, -, hread⟩ := (bind_eq_ok_iff ..).mp hread
  split at hread
  · next hrange =>
    cases hread
    exact h.read hw hrange
  · cases hread

end Scalar

/-! ### Fields and message types -/

/-- A field keeps a property of messages, whether a value is stored through it by `load` or by
`read`. -/
structure Field.Preserves (field : Field M) (P : M → Prop) : Prop where
  load : ∀ {depth payload m m'}, P m → field.load depth payload m = some m' → P m'
  read : ∀ {m m' tokens rest}, P m → field.read m tokens = .ok (m', rest) → P m'

/-- The empty message has a property, and every field of the schema has `Field.Preserves` for it, so
every message that is read has it. -/
structure Schema.Preserves (schema : Schema M) (P : M → Prop) : Prop where
  empty : P schema.empty
  fields : ∀ field ∈ schema.fields, field.Preserves P

namespace Schema.Preserves

variable {schema : Schema M} {P : M → Prop}

/-- A schema that `Preserves` a property keeps it when records are merged by `merge?`, those of
undeclared fields by being passed over. -/
theorem merge? (h : schema.Preserves P) {depth : Nat} {content : Bytes} {m m' : M} (hm : P m)
    (hmerge : schema.merge? depth m content = some m') : P m' := by
  obtain ⟨records, -, hfold⟩ := Option.bind_eq_some_iff.mp hmerge
  clear hmerge
  -- The induction is on the records, and the property is carried over each of them.
  induction records generalizing m with
  | nil =>
    cases hfold
    exact hm
  | cons record records ih =>
    obtain ⟨m₁, hload, hrest⟩ := Option.bind_eq_some_iff.mp hfold
    refine ih ?_ hrest
    rw [Schema.loadRecord] at hload
    split at hload
    · next field hfield => exact (h.fields field (List.mem_of_find?_eq_some hfield)).load hm hload
    · cases hload
      exact hm

/-- A schema that `Preserves` a property keeps it when the content of a record one level further in
is merged. -/
theorem mergeNested? (h : schema.Preserves P) {depth : Nat} {content : Bytes} {m m' : M} (hm : P m)
    (hmerge : schema.mergeNested? depth m content = some m') : P m' := by
  cases depth with
  | zero => cases hmerge
  | succ depth => exact h.merge? hm hmerge

/-- A schema that `Preserves` a property keeps it when fields are read, up to a closing symbol or to
the end of the text. -/
theorem readFields (h : schema.Preserves P) {closer : Option Char} {m m' : M}
    {tokens rest : List Token} (hm : P m)
    (hread : Reader.fields schema.reader? closer m tokens = .ok (m', rest)) : P m' := by
  rw [Reader.fields] at hread
  -- The fuel only has to be enough, so the induction is over any amount of it.
  generalize tokens.length + 1 = fuel at hread
  induction fuel generalizing m tokens with
  | zero => cases hread
  | succ fuel ih =>
    cases tokens with
    | nil =>
      rw [Reader.fieldsFrom] at hread
      split at hread
      · cases hread
        exact hm
      · cases hread
    | cons token tokens =>
      rw [Reader.fieldsFrom] at hread
      split at hread
      · cases hread
        exact hm
      split at hread
      · cases hread
      simp only at hread
      split at hread
      · next read hreader =>
        obtain ⟨field, hfound, rfl⟩ := Option.map_eq_some_iff.mp hreader
        obtain ⟨⟨m₁, behind⟩, hfield, hrest⟩ := (bind_eq_ok_iff ..).mp hread
        exact ih ((h.fields field (List.mem_of_find?_eq_some hfound)).read hm hfield) hrest
      · -- An unknown field is passed over.
        obtain ⟨⟨m₁, behind⟩, hfield, hrest⟩ := (bind_eq_ok_iff ..).mp hread
        obtain ⟨_, -, heq⟩ := (map_eq_ok_iff ..).mp hfield
        cases heq
        exact ih hm hrest

/-- What a schema that `Preserves` a property decodes from binary form has the property. -/
theorem of_decode? (h : schema.Preserves P) {content : Bytes} {m : M}
    (hdecode : schema.decode? content = some m) : P m :=
  h.merge? h.empty hdecode

/-- What a schema that `Preserves` a property reads from a text has the property. -/
theorem of_ofText (h : schema.Preserves P) {t : Text} {m : M} (hread : schema.ofText t = .ok m) :
    P m := by
  obtain ⟨⟨m', rest⟩, hfields, rfl⟩ := (map_eq_ok_iff ..).mp hread
  exact h.readFields h.empty hfields

end Schema.Preserves

/-- Items read by `oneOrList` keep a property of messages, on their own and in a list, if each of
them does. -/
theorem Reader.preserves_oneOrList {item : M → Reader M} {P : M → Prop}
    (h : ∀ {m m' tokens rest}, P m → item m tokens = .ok (m', rest) → P m') {m m' : M}
    {tokens rest : List Token} (hm : P m) (hread : oneOrList item m tokens = .ok (m', rest)) :
    P m' := by
  -- The items of a list are read with fuel, and each of them keeps the property.
  have hitems : ∀ (fuel : Nat) {m : M} {tokens : List Token}, P m →
      itemsFrom item fuel m tokens = .ok (m', rest) → P m' := by
    intro fuel
    induction fuel with
    | zero =>
      intro m tokens _ hread
      cases hread
    | succ fuel ih =>
      intro m tokens hm hread
      obtain ⟨⟨m₁, behind⟩, hitem, hread⟩ := (bind_eq_ok_iff ..).mp hread
      have hm₁ := h hm hitem
      simp only at hread
      split at hread
      · cases hread
        exact hm₁
      · obtain ⟨_, -, hread⟩ := (bind_eq_ok_iff ..).mp hread
        exact ih hm₁ hread
  rw [oneOrList] at hread
  split at hread
  · simp only at hread
    split at hread
    · cases hread
      exact hm
    · exact hitems _ hm hread
  · exact h hm hread

namespace Field

variable {number : Nat} {name : Text} {P : M → Prop} {Q : N → Prop}

/-- A single `scalar` field keeps a property that setting it to a value of its kind keeps. -/
theorem preserves_scalar {kind : Scalar α} {R : α → Prop} (hkind : kind.Yields R) {get : M → α}
    {set : M → α → M} (hset : ∀ m v, P m → R v → P (set m v)) :
    (scalar number name kind get set).Preserves P where
  load {depth payload m m'} hm h := by
    simp only [scalar] at h
    -- A record holds a value of the kind, or one that is refused, or it is of another wire type.
    split at h
    · next v hv =>
      cases h
      exact hset m v hm (hkind.ofPayload hv)
    · cases h
    · cases h
      exact hm
  read {m m' tokens rest} hm h := by
    obtain ⟨behind, -, h⟩ := (bind_eq_ok_iff ..).mp h
    obtain ⟨⟨v, _⟩, hv, h⟩ := (bind_eq_ok_iff ..).mp h
    cases h
    exact hset m v hm (hkind.of_readStorable hv)

/-- A field of `scalars` keeps a property that putting values behind those that are there keeps, one
by one or packed. -/
theorem preserves_scalars {kind : Scalar α} {R : α → Prop} (hkind : kind.Yields R)
    {get : M → List α} {set : M → List α → M}
    (hset : ∀ m vs, P m → (∀ v ∈ vs, R v) → P (set m (get m ++ vs))) :
    (scalars number name kind get set).Preserves P where
  load {depth payload m m'} hm h := by
    simp only [scalars] at h
    -- A record holds one value, or many of them in a packed list.
    split at h
    · next v hv =>
      cases h
      exact hset m [v] hm (List.forall_mem_singleton.mpr (hkind.ofPayload hv))
    · cases h
    · split at h
      · obtain ⟨vs, hvs, rfl⟩ := Option.map_eq_some_iff.mp h
        exact hset m vs hm (hkind.packed hvs)
      · cases h
        exact hm
  read {m m' tokens rest} hm h := by
    obtain ⟨behind, -, h⟩ := (bind_eq_ok_iff ..).mp h
    refine Reader.preserves_oneOrList (fun {m m' tokens rest} hm h => ?_) hm h
    obtain ⟨⟨v, _⟩, hv, h⟩ := (bind_eq_ok_iff ..).mp h
    cases h
    exact hset m [v] hm (List.forall_mem_singleton.mpr (hkind.of_readStorable hv))

/-- A single `message` field keeps a property that setting it keeps: the content is merged into the
message that is there, or read into an empty one. -/
theorem preserves_message {schema : Schema N} (hschema : schema.Preserves Q) {get : M → Option N}
    {set : M → N → M} (hget : ∀ m n, P m → get m = some n → Q n)
    (hset : ∀ m n, P m → Q n → P (set m n)) :
    (message number name schema get set).Preserves P where
  load {depth payload m m'} hm h := by
    simp only [message] at h
    -- The message that is there has the property, and an absent one counts as empty.
    split at h
    · obtain ⟨n, hn, rfl⟩ := Option.map_eq_some_iff.mp h
      refine hset m n hm (hschema.mergeNested? ?_ hn)
      cases hold : get m with
      | none => exact hschema.empty
      | some n => exact hget m n hm hold
    · cases h
      exact hm
  read {m m' tokens rest} hm h := by
    obtain ⟨⟨closer, behind⟩, -, h⟩ := (bind_eq_ok_iff ..).mp h
    simp only at h
    split at h
    · cases h
    · obtain ⟨⟨n, _⟩, hn, h⟩ := (bind_eq_ok_iff ..).mp h
      cases h
      exact hset m n hm (hschema.readFields hschema.empty hn)

/-- A field of `messages` keeps a property that putting a message behind those that are there keeps.
-/
theorem preserves_messages {schema : Schema N} (hschema : schema.Preserves Q) {get : M → List N}
    {set : M → List N → M} (hset : ∀ m n, P m → Q n → P (set m (get m ++ [n]))) :
    (messages number name schema get set).Preserves P where
  load {depth payload m m'} hm h := by
    simp only [messages] at h
    -- Each record brings a message of its own, which is merged into an empty one.
    split at h
    · obtain ⟨n, hn, rfl⟩ := Option.map_eq_some_iff.mp h
      exact hset m n hm (hschema.mergeNested? hschema.empty hn)
    · cases h
      exact hm
  read {m m' tokens rest} hm h := by
    simp only [messages] at h
    refine Reader.preserves_oneOrList (fun {m m' tokens rest} hm h => ?_) hm h
    obtain ⟨⟨closer, behind⟩, -, h⟩ := (bind_eq_ok_iff ..).mp h
    obtain ⟨⟨n, _⟩, hn, h⟩ := (bind_eq_ok_iff ..).mp h
    cases h
    exact hset m n hm (hschema.readFields hschema.empty hn)

/-- A `choiceScalar` keeps a property that setting it keeps, since it takes the place of whatever
member was set. -/
theorem preserves_choiceScalar {kind : Scalar α} {R : α → Prop} (hkind : kind.Yields R)
    {taken : M → Bool} {get : M → Option α} {set : M → α → M}
    (hset : ∀ m v, P m → R v → P (set m v)) :
    (choiceScalar number name kind taken get set).Preserves P where
  load {depth payload m m'} hm h := by
    simp only [choiceScalar] at h
    -- A value of the kind is stored as the member, a refused one fails, and any other wire type is
    -- passed over.
    split at h
    · next v hv =>
      cases h
      exact hset m v hm (hkind.ofPayload hv)
    · cases h
    · cases h
      exact hm
  read {m m' tokens rest} hm h := by
    simp only [choiceScalar] at h
    -- A member is read only if none of the choice is set yet.
    split at h
    · cases h
    · obtain ⟨behind, -, h⟩ := (bind_eq_ok_iff ..).mp h
      obtain ⟨⟨v, _⟩, hv, h⟩ := (bind_eq_ok_iff ..).mp h
      cases h
      exact hset m v hm (hkind.of_readStorable hv)

/-- A `choiceMessage` is stored as a single message is, and keeps a property under the same
conditions. -/
theorem preserves_choiceMessage {schema : Schema N} (hschema : schema.Preserves Q)
    {taken : M → Bool} {get : M → Option N} {set : M → N → M}
    (hget : ∀ m n, P m → get m = some n → Q n) (hset : ∀ m n, P m → Q n → P (set m n)) :
    (choiceMessage number name schema taken get set).Preserves P := by
  have hmessage : (message number name schema get set).Preserves P :=
    preserves_message hschema hget hset
  refine ⟨hmessage.load, fun {m m' tokens rest} hm h => ?_⟩
  simp only [choiceMessage] at h
  split at h
  · cases h
  · exact hmessage.read hm h

end Field

end TypedOps
