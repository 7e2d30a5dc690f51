import Mathlib.Algebra.Group.Nat.Defs
import TypedOps.Message.Wire
import TypedOps.Proofs.Text.Utf8

/-!
# `TypedOps.Proofs.Message.Wire`: records are read back

`Numeral`, `Tagged` and `Content` say which bytes are a number, a tag and a payload. Such bytes are
read, whatever stands behind them, and the writing half of the format puts down nothing else. So
what is written is read back, one record of each kind after the other (`ReadsAs`). Lengths take at
most five bytes, so content is read back up to `lengthLimit`.

Every record takes at least a byte. So a bound on their number that is at least the number of
bytes makes no difference (`ReadsMany.eq_of_le`), and records are read one by one
(`records?_append`). The same goes for the numbers of a packed field.
-/

set_option autoImplicit false

namespace TypedOps.Wire

/-! ### Numbers -/

/-- Bytes that stand for a number: seven bits a byte, the lowest first, all but the last marked by
their top bit, and at most `limit` of them. A number may have more bytes than it needs. -/
inductive Numeral : (limit : Nat) → Nat → Bytes → Prop
  | last {limit : Nat} {b : UInt8} (h : b.toNat < 128) : Numeral (limit + 1) b.toNat [b]
  | more {limit n : Nat} {b : UInt8} {bytes : Bytes} (h : ¬b.toNat < 128)
      (rest : Numeral limit n bytes) : Numeral (limit + 1) (b.toNat - 128 + 128 * n) (b :: bytes)

/-- The bytes of a `Numeral` are at least one, also for the number zero. -/
theorem Numeral.length_pos {limit n : Nat} {bytes : Bytes} (h : Numeral limit n bytes) :
    0 < bytes.length := by
  cases h <;> exact Nat.succ_pos _

/-- The bytes of a number are read by `readVarint` as the number, and what stands behind them is
left. -/
theorem readVarint_of_numeral {limit n : Nat} {bytes : Bytes} (h : Numeral limit n bytes)
    (rest : Bytes) : readVarint limit (bytes ++ rest) = some (n, rest) := by
  induction h with
  | last h => rw [List.singleton_append, readVarint, if_pos h]
  | more h _ ih => rw [List.cons_append, readVarint, if_neg h, ih, Option.map_some]

/-- The shortest form of a number, by `varintFrom`, stands for it. The writer's bound is on the bits
of a number, the reader's on its bytes. -/
theorem numeral_varintFrom {fuel limit n : Nat} (hfuel : n < 2 ^ (fuel + 1))
    (hlimit : n < 128 ^ (limit + 1)) : Numeral (limit + 1) n (varintFrom fuel n) := by
  have hlast : ∀ {limit n : Nat}, n < 128 → Numeral (limit + 1) n [UInt8.ofNat n] := by
    intro limit n hn
    have hbyte := Utf8.toNat_byte (show n < 256 by omega)
    have h : Numeral (limit + 1) (UInt8.ofNat n).toNat [UInt8.ofNat n] := .last (by omega)
    rwa [hbyte] at h
  induction fuel generalizing n limit with
  | zero => exact hlast (by omega)
  | succ fuel ih =>
    rw [varintFrom]
    split
    · next hn => exact hlast hn
    · next hn =>
      -- The number has a second byte, so the reader's bound leaves room for it.
      obtain ⟨limit, rfl⟩ : ∃ k, limit = k + 1 := by
        cases limit with
        | zero => omega
        | succ k => exact ⟨k, rfl⟩
      have hmore : n / 128 < 2 ^ (fuel + 1) := by
        rw [Nat.div_lt_iff_lt_mul (by decide)]
        calc n < 2 ^ (fuel + 1 + 1) := hfuel
          _ = 2 ^ (fuel + 1) * 2 := Nat.pow_succ 2 (fuel + 1)
          _ ≤ 2 ^ (fuel + 1) * 128 := Nat.mul_le_mul_left _ (by decide)
      have hroom : n / 128 < 128 ^ (limit + 1) := by
        rw [Nat.div_lt_iff_lt_mul (by decide), ← Nat.pow_succ]
        exact hlimit
      have hbyte := Utf8.toNat_byte (show 128 + n % 128 < 256 by omega)
      have h := Numeral.more (b := UInt8.ofNat (128 + n % 128)) (by omega) (ih hmore hroom)
      have hsum : 128 + n % 128 - 128 + 128 * (n / 128) = n := by omega
      rwa [hbyte, hsum] at h

/-- The bytes that `varint` writes stand for the number, if the limit allows for so many. -/
theorem numeral_varint {limit n : Nat} (hlimit : n < 128 ^ (limit + 1)) :
    Numeral (limit + 1) n (varint n) :=
  numeral_varintFrom Nat.lt_log2_self hlimit

/-- Sixty-four bits of a number are read by `readValue`, and the rest is dropped. -/
theorem readValue_of_numeral {n : Nat} {bytes : Bytes} (h : Numeral 10 n bytes) (rest : Bytes) :
    readValue (bytes ++ rest) = some (n % MachineInt.patterns 64, rest) := by
  rw [readValue, readVarint_of_numeral h, Option.map_some]

/-- A number of sixty-four bits is a `Numeral` of ten bytes at most. -/
theorem numeral_value {n : Nat} (hn : n < MachineInt.patterns 64) : Numeral 10 n (varint n) :=
  numeral_varint (Nat.lt_of_lt_of_le hn (by decide))

/-- A number of sixty-four bits is read back by `readValue` as a value. -/
theorem readValue_varint {n : Nat} (hn : n < MachineInt.patterns 64) (rest : Bytes) :
    readValue (varint n ++ rest) = some (n, rest) := by
  rw [readValue_of_numeral (numeral_value hn), Nat.mod_eq_of_lt hn]

/-- The first bytes of several are read off by `readBytes`, as many as there are. -/
theorem readBytes_append (content rest : Bytes) :
    readBytes content.length (content ++ rest) = some (content, rest) := by
  simp [readBytes]

/-- The number in four bytes is read back by `fixed32Value`. -/
theorem fixed32Value_fixed32 {n : Nat} (hn : n < MachineInt.patterns 32) :
    fixed32Value (fixed32 n) = n := by
  have hpatterns : MachineInt.patterns 32 = 4294967296 := by decide
  simp only [fixed32Value, fixed32, List.foldr_cons, List.foldr_nil, UInt8.toNat_ofNat']
  omega

/-! ### Records -/

/-- The lengths that a `Numeral` of five bytes can hold. -/
def lengthLimit : Nat := 128 ^ 5

/-- A number that a field can have: positive, and one of the `patterns` of twenty-nine bits. -/
def IsFieldNumber (field : Nat) : Prop := 0 < field ∧ field < MachineInt.patterns 29

instance (field : Nat) : Decidable (IsFieldNumber field) :=
  inferInstanceAs (Decidable (_ ∧ _))

/-- Bytes that are the tag of a field and a kind, as a `Numeral` of at most five bytes. -/
structure Tagged (field kind : Nat) (bytes : Bytes) : Prop where
  isFieldNumber : IsFieldNumber field
  kind_lt : kind < 8
  numeral : Numeral 5 (field * 8 + kind) bytes

/-- Bytes that are `Tagged` are read as their field and kind. -/
theorem Tagged.readTag_append {field kind : Nat} {bytes : Bytes} (h : Tagged field kind bytes)
    (rest : Bytes) : readTag (bytes ++ rest) = some (field, kind, rest) := by
  have hpatterns : MachineInt.patterns 29 = 536870912 ∧ MachineInt.patterns 32 = 4294967296 := by
    decide
  have hfield := h.isFieldNumber.2
  have hkind := h.kind_lt
  rw [readTag, readVarint_of_numeral h.numeral]
  simp only
  rw [if_neg (by omega)]
  have hfield' : (field * 8 + kind) / 8 = field := by omega
  have hkind' : (field * 8 + kind) % 8 = kind := by omega
  rw [hfield', hkind']

/-- The bytes that `tag` writes are the tag of the field and kind. -/
theorem tagged_tag {field kind : Nat} (hfield : IsFieldNumber field) (hkind : kind < 8) :
    Tagged field kind (tag field kind) := by
  refine ⟨hfield, hkind, numeral_varint ?_⟩
  have hpatterns : MachineInt.patterns 29 = 536870912 := by decide
  have hfield' := hfield.2
  omega

/-- Bytes behind a tag of the given kind that are a `Payload`, groups apart. -/
inductive Content : (kind : Nat) → Payload → Bytes → Prop
  | varint {n : Nat} {bytes : Bytes} (h : Numeral 10 n bytes) :
      Content 0 (.varint (n % MachineInt.patterns 64)) bytes
  | fixed64 {content : Bytes} (h : content.length = 8) : Content 1 (.fixed64 content) content
  | delimited {size content : Bytes} (h : Numeral 5 content.length size) :
      Content 2 (.delimited content) (size ++ content)
  | fixed32 {content : Bytes} (h : content.length = 4) : Content 5 (.fixed32 content) content

/-- Bytes that are `Content` are read as their payload. -/
theorem readPayload_of_content {kind : Nat} {payload : Payload} {bytes : Bytes}
    (h : Content kind payload bytes) (skip : Nat → Bytes → Option Bytes) (field : Nat)
    (rest : Bytes) : readPayload skip field kind (bytes ++ rest) = some (payload, rest) := by
  -- One case for each wire type. Only the delimited one has two parts to read.
  cases h with
  | varint h =>
    rw [readPayload, readValue_of_numeral h, Option.map_some]
  | fixed64 h =>
    rw [readPayload, ← h, readBytes_append, Option.map_some]
  | @delimited size content h =>
    have hlength : readLength (size ++ content ++ rest) =
        some (content.length, content ++ rest) := by
      rw [readLength, List.append_assoc, readVarint_of_numeral h]
    simp only [readPayload, hlength, Option.bind_eq_bind, Option.bind_some, readBytes_append]
    rfl
  | fixed32 h =>
    rw [readPayload, ← h, readBytes_append, Option.map_some]

/-- A byte string is no longer than its `delimitedRecord`, so a limit on the record holds for it. -/
theorem length_lt_of_delimitedRecord {field limit : Nat} {content : Bytes}
    (h : (delimitedRecord field content).length < limit) : content.length < limit := by
  simp only [delimitedRecord, delimited, List.length_append] at h
  omega

/-- Bytes with their length in front are the `Content` of a payload of kind two. -/
theorem content_delimited {content : Bytes} (h : content.length < lengthLimit) :
    Content 2 (.delimited content) (delimited content) :=
  .delimited (numeral_varint h)

/-- Bytes are read as a record by `readRecord`, whatever stands behind them and however deep groups
may nest. -/
def ReadsAs (bytes : Bytes) (record : Record) : Prop :=
  ∀ depth rest, readRecord depth (bytes ++ rest) = some (record, rest)

/-- A tag with the `Content` of a payload of its kind is read as a record. -/
theorem readsAs_of_content {field kind : Nat} {tag content : Bytes} {payload : Payload}
    (htag : Tagged field kind tag) (hcontent : Content kind payload content) :
    ReadsAs (tag ++ content) ⟨field, payload⟩ := by
  intro depth rest
  have hne : field ≠ 0 := Nat.ne_of_gt htag.isFieldNumber.1
  rw [readRecord, List.append_assoc, htag.readTag_append]
  simp only [Option.bind_eq_bind, Option.bind_some, if_neg hne, readPayload_of_content hcontent]
  rfl

/-- The `varintRecord` that is written for a number is read as it. -/
theorem readsAs_varintRecord {field n : Nat} (hfield : IsFieldNumber field)
    (hn : n < MachineInt.patterns 64) : ReadsAs (varintRecord field n) ⟨field, .varint n⟩ := by
  have h := readsAs_of_content (tagged_tag hfield (by decide)) (.varint (numeral_value hn))
  rwa [Nat.mod_eq_of_lt hn] at h

/-- The `delimitedRecord` that is written for bytes with their length is read as them. -/
theorem readsAs_delimitedRecord {field : Nat} {content : Bytes} (hfield : IsFieldNumber field)
    (hcontent : content.length < lengthLimit) :
    ReadsAs (delimitedRecord field content) ⟨field, .delimited content⟩ :=
  readsAs_of_content (tagged_tag hfield (by decide)) (content_delimited hcontent)

/-- The `fixed32Record` that is written for four bytes is read as them. -/
theorem readsAs_fixed32Record {field : Nat} {content : Bytes} (hfield : IsFieldNumber field)
    (hcontent : content.length = 4) :
    ReadsAs (fixed32Record field content) ⟨field, .fixed32 content⟩ :=
  readsAs_of_content (tagged_tag hfield (by decide)) (.fixed32 hcontent)

/-! ### Reading takes bytes -/

/-- To read a number by `readVarint` takes at least a byte. -/
theorem length_readVarint {limit n : Nat} {bytes rest : Bytes}
    (h : readVarint limit bytes = some (n, rest)) : rest.length < bytes.length := by
  -- The byte with the high bit clear is the last one, and there is no number without it.
  induction limit generalizing n bytes with
  | zero => cases h
  | succ limit ih =>
    cases bytes with
    | nil => cases h
    | cons b bytes =>
      rw [readVarint] at h
      split at h
      · cases h
        exact Nat.lt_succ_self _
      · obtain ⟨⟨m, rest'⟩, hrest, h⟩ := Option.map_eq_some_iff.mp h
        cases h
        exact Nat.lt_succ_of_lt (ih hrest)

/-- To read a value by `readValue` takes at least a byte. -/
theorem length_readValue {n : Nat} {bytes rest : Bytes} (h : readValue bytes = some (n, rest)) :
    rest.length < bytes.length := by
  obtain ⟨⟨m, rest'⟩, hrest, h⟩ := Option.map_eq_some_iff.mp h
  cases h
  exact length_readVarint hrest

/-- To read a tag by `readTag` takes at least a byte. -/
theorem length_readTag {field kind : Nat} {bytes rest : Bytes}
    (h : readTag bytes = some (field, kind, rest)) : rest.length < bytes.length := by
  rw [readTag] at h
  split at h
  · next hrest =>
    split at h
    · cases h
    · cases h
      exact length_readVarint hrest
  · cases h

/-- To read off bytes by `readBytes` gives none back. -/
theorem length_readBytes {n : Nat} {bytes content rest : Bytes}
    (h : readBytes n bytes = some (content, rest)) : rest.length ≤ bytes.length := by
  rw [readBytes] at h
  split at h
  · cases h
    simp
  · cases h

/-- To read a payload by `readPayload` gives no bytes back, if finding the end of a group does not.
-/
theorem length_readPayload {skip : Nat → Bytes → Option Bytes}
    (hskip : ∀ field bytes rest, skip field bytes = some rest → rest.length ≤ bytes.length)
    {field kind : Nat} {bytes rest : Bytes} {payload : Payload}
    (h : readPayload skip field kind bytes = some (payload, rest)) :
    rest.length ≤ bytes.length := by
  unfold readPayload at h
  -- One case for each wire type. Only a group leaves it to `skip`.
  split at h
  · obtain ⟨⟨n, rest'⟩, hrest, h⟩ := Option.map_eq_some_iff.mp h
    cases h
    exact Nat.le_of_lt (length_readValue hrest)
  · obtain ⟨⟨content, rest'⟩, hrest, h⟩ := Option.map_eq_some_iff.mp h
    cases h
    exact length_readBytes hrest
  · obtain ⟨⟨n, between⟩, hlength, h⟩ := Option.bind_eq_some_iff.mp h
    obtain ⟨⟨content, rest'⟩, hrest, h⟩ := Option.bind_eq_some_iff.mp h
    cases h
    exact Nat.le_of_lt (Nat.lt_of_le_of_lt (length_readBytes hrest) (length_readVarint hlength))
  · obtain ⟨rest', hrest, h⟩ := Option.map_eq_some_iff.mp h
    cases h
    exact hskip _ _ _ hrest
  · obtain ⟨⟨content, rest'⟩, hrest, h⟩ := Option.map_eq_some_iff.mp h
    cases h
    exact length_readBytes hrest
  · cases h

/-- The end of a group that `skipGroup` finds stands behind its start, so no bytes are given back.
-/
theorem length_skipGroup {fuel depth field : Nat} {bytes rest : Bytes}
    (h : skipGroup fuel depth field bytes = some rest) : rest.length ≤ bytes.length := by
  -- Each step of the search takes the tag away, and the payload takes away nothing less.
  induction fuel generalizing depth field bytes rest with
  | zero => cases h
  | succ fuel ih =>
    cases depth with
    | zero => cases h
    | succ depth =>
      rw [skipGroup] at h
      obtain ⟨⟨number, kind, between⟩, htag, h⟩ := Option.bind_eq_some_iff.mp h
      have hbetween := Nat.le_of_lt (length_readTag htag)
      simp only at h
      split at h
      · split at h
        · cases h
          exact hbetween
        · cases h
      · obtain ⟨⟨payload, behind⟩, hpayload, h⟩ := Option.bind_eq_some_iff.mp h
        have hbehind := length_readPayload (fun _ _ _ => ih) hpayload
        exact Nat.le_trans (ih h) (Nat.le_trans hbehind hbetween)

/-- To read a record by `readRecord` takes at least a byte, so the number of bytes bounds the number
of records. -/
theorem length_readRecord {depth : Nat} {bytes rest : Bytes} {record : Record}
    (h : readRecord depth bytes = some (record, rest)) : rest.length < bytes.length := by
  obtain ⟨⟨field, kind, between⟩, htag, h⟩ := Option.bind_eq_some_iff.mp h
  simp only at h
  split at h
  · cases h
  · obtain ⟨⟨payload, rest'⟩, hpayload, h⟩ := Option.bind_eq_some_iff.mp h
    cases h
    exact Nat.lt_of_le_of_lt (length_readPayload (fun _ _ _ => length_skipGroup) hpayload)
      (length_readTag htag)

/-! ### Sequences -/

section
variable {α : Type}

/-- A reader `many` that reads items with `read` until nothing is left, and counts them down. -/
structure ReadsMany (read : Bytes → Option (α × Bytes)) (many : Nat → Bytes → Option (List α)) :
    Prop where
  nil : ∀ fuel, many fuel [] = some []
  cons : ∀ fuel b bytes, many (fuel + 1) (b :: bytes) =
    (read (b :: bytes)).bind fun (a, rest) => (a :: ·) <$> many fuel rest
  /-- Every item takes at least a byte. -/
  shrinks : ∀ {bytes rest : Bytes} {a : α}, read bytes = some (a, rest) →
    rest.length < bytes.length

variable {read : Bytes → Option (α × Bytes)} {many : Nat → Bytes → Option (List α)}

/-- Bounds on the number of items that are at least the number of bytes make no difference to
`many`. -/
theorem ReadsMany.eq_of_le (h : ReadsMany read many) {fuel fuel' : Nat} {bytes : Bytes}
    (hfuel : bytes.length ≤ fuel) (hfuel' : bytes.length ≤ fuel') :
    many fuel bytes = many fuel' bytes := by
  -- Both bounds fall by one for each item, and an item takes at least one byte.
  induction fuel generalizing fuel' bytes with
  | zero =>
    rw [List.length_eq_zero_iff.mp (Nat.le_zero.mp hfuel), h.nil, h.nil]
  | succ fuel ih =>
    cases bytes with
    | nil => rw [h.nil, h.nil]
    | cons b bytes =>
      obtain ⟨fuel', rfl⟩ : ∃ k, fuel' = k + 1 :=
        ⟨fuel' - 1, by rw [List.length_cons] at hfuel'; omega⟩
      rw [h.cons, h.cons]
      cases hread : read (b :: bytes) with
      | none => rfl
      | some result =>
        have hrest := h.shrinks hread
        rw [List.length_cons] at hrest hfuel hfuel'
        simp only [Option.bind_some]
        rw [ih (by omega) (show result.2.length ≤ fuel' by omega)]

/-- Items are read one by one: the first with `read`, and the others from what is left. -/
theorem ReadsMany.append (h : ReadsMany read many) {bytes rest : Bytes} {a : α}
    (hread : read (bytes ++ rest) = some (a, rest)) :
    many (bytes ++ rest).length (bytes ++ rest) = (a :: ·) <$> many rest.length rest := by
  have hrest := h.shrinks hread
  cases hbytes : bytes ++ rest with
  | nil =>
    rw [hbytes] at hrest
    exact absurd hrest (Nat.not_lt_zero _)
  | cons b more =>
    rw [hbytes] at hread hrest
    rw [List.length_cons, h.cons, hread, Option.bind_some]
    rw [List.length_cons] at hrest
    simp only
    rw [h.eq_of_le (show rest.length ≤ more.length by omega) (Nat.le_refl _)]

end

/-- Records are read by `recordsFrom?` as `ReadsMany` says. -/
theorem readsMany_recordsFrom? (depth : Nat) :
    ReadsMany (readRecord depth) (recordsFrom? depth) where
  nil fuel := by cases fuel <;> rfl
  cons _ _ _ := rfl
  shrinks := length_readRecord

/-- Bytes that are read as a record are the first of the `records?`. -/
theorem records?_of_readRecord {depth : Nat} {bytes rest : Bytes} {record : Record}
    (h : readRecord depth (bytes ++ rest) = some (record, rest)) :
    records? depth (bytes ++ rest) = (record :: ·) <$> records? depth rest :=
  (readsMany_recordsFrom? depth).append h

/-- Bytes that are a record wherever they stand are the first of the `records?` in front of any
others. -/
theorem records?_append {bytes : Bytes} {record : Record} (h : ReadsAs bytes record)
    (depth : Nat) (rest : Bytes) :
    records? depth (bytes ++ rest) = (record :: ·) <$> records? depth rest :=
  records?_of_readRecord (h depth rest)

/-- The numbers of a packed field are read as `ReadsMany` says. -/
theorem readsMany_packedVarintsFrom? : ReadsMany readValue packedVarintsFrom? where
  nil fuel := by cases fuel <;> rfl
  cons _ _ _ := rfl
  shrinks := length_readValue

/-- Packed numbers of sixty-four bits are read back by `packedVarints?`. -/
theorem packedVarints?_flatMap {numbers : List Nat}
    (h : ∀ n ∈ numbers, n < MachineInt.patterns 64) :
    packedVarints? (numbers.flatMap varint) = some numbers := by
  induction numbers with
  | nil => rfl
  | cons n numbers ih =>
    rw [List.forall_mem_cons] at h
    rw [List.flatMap_cons, packedVarints?,
      readsMany_packedVarintsFrom?.append (readValue_varint h.1 _)]
    rw [packedVarints?] at ih
    rw [ih h.2]
    rfl

/-- Numbers packed in four bytes each are read back by `packedFixed32?`. -/
theorem packedFixed32?_flatMap {numbers : List Nat}
    (h : ∀ n ∈ numbers, n < MachineInt.patterns 32) :
    packedFixed32? (numbers.flatMap fixed32) = some numbers := by
  induction numbers with
  | nil => rfl
  | cons n numbers ih =>
    rw [List.forall_mem_cons] at h
    have hn := fixed32Value_fixed32 h.1
    rw [fixed32] at hn
    rw [List.flatMap_cons, fixed32]
    simp only [List.cons_append, List.nil_append, packedFixed32?, hn, ih h.2]
    rfl

end TypedOps.Wire
