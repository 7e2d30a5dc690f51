import TypedOps.Proofs.Message.Wire

/-!
# `TypedOps.Proofs.Message.WellFormed`: well-formed records

`WellFormed` is the grammar of records in a row. Tags, numbers and lengths may be longer than they
have to be, and a group holds well-formed records again, up to the end mark with its number. All of
them are read, whatever stands behind them, as long as groups nest no deeper than the reader goes
(`WellFormed.records?_append`).
-/

set_option autoImplicit false

namespace TypedOps.Wire

/-- Records in a row, with groups in them that nest at most `depth` deep. -/
inductive WellFormed : (depth : Nat) → List Record → Bytes → Prop
  | nil (depth : Nat) : WellFormed depth [] []
  | record {depth field kind : Nat} {payload : Payload} {tag content bytes : Bytes}
      {records : List Record} (htag : Tagged field kind tag)
      (hcontent : Content kind payload content) (rest : WellFormed depth records bytes) :
      WellFormed depth (⟨field, payload⟩ :: records) (tag ++ (content ++ bytes))
  | group {depth field : Nat} {inside records : List Record} {opening content closing bytes : Bytes}
      (hopening : Tagged field 3 opening) (hinside : WellFormed depth inside content)
      (hclosing : Tagged field 4 closing) (rest : WellFormed (depth + 1) records bytes) :
      WellFormed (depth + 1) (⟨field, .group⟩ :: records)
        (opening ++ (content ++ (closing ++ bytes)))

/-- Bytes in which a field holds others, as one of the `WellFormed` records on the level of the
message itself. -/
def Holds (depth : Nat) (bytes : Bytes) (field : Nat) (content : Bytes) : Prop :=
  ∃ records, WellFormed depth records bytes ∧ ⟨field, .delimited content⟩ ∈ records

/-- The `delimitedRecord` that is written for bytes is well formed at any depth. -/
theorem wellFormed_delimitedRecord {depth field : Nat} {content : Bytes}
    (hfield : IsFieldNumber field) (hcontent : content.length < lengthLimit) :
    WellFormed depth [⟨field, .delimited content⟩] (delimitedRecord field content) := by
  have h := WellFormed.record (tagged_tag hfield (by decide)) (content_delimited hcontent)
    (WellFormed.nil depth)
  rwa [List.append_nil] at h

/-- A payload with its `Content`, being no group, has another kind than the tag that ends one. -/
theorem Content.kind_ne {kind : Nat} {payload : Payload} {bytes : Bytes}
    (h : Content kind payload bytes) : kind ≠ 4 := by
  cases h <;> decide

/-- The end of a group is found by `skipGroup` behind well-formed records. The bound on the number
of records is at least the number of bytes, and each record takes one. -/
theorem WellFormed.skipGroup_append {depth : Nat} {records : List Record} {bytes : Bytes}
    (h : WellFormed depth records bytes) {fuel field : Nat} {closing : Bytes}
    (hclosing : Tagged field 4 closing) (hfuel : (bytes ++ closing).length ≤ fuel) (rest : Bytes) :
    skipGroup fuel (depth + 1) field (bytes ++ (closing ++ rest)) = some rest := by
  have hend := hclosing.numeral.length_pos
  -- The induction is on how the records are built, and each takes one off the bound.
  induction h generalizing fuel field closing rest with
  | nil depth =>
    obtain ⟨fuel, rfl⟩ : ∃ k, fuel = k + 1 := ⟨fuel - 1, by simp at hfuel; omega⟩
    rw [List.nil_append, skipGroup, hclosing.readTag_append, Option.bind_eq_bind, Option.bind_some]
    simp only [if_true]
  | @record depth number kind payload tag content bytes records htag hcontent _ ih =>
    have hpos := htag.numeral.length_pos
    simp only [List.length_append] at hfuel
    obtain ⟨fuel, rfl⟩ : ∃ k, fuel = k + 1 := ⟨fuel - 1, by omega⟩
    have hbytes : (bytes ++ closing).length ≤ fuel := by
      rw [List.length_append]
      omega
    have hrest := ih hclosing hbytes rest hend
    simp only [List.append_assoc, skipGroup, htag.readTag_append, Option.bind_eq_bind,
      Option.bind_some, if_neg hcontent.kind_ne, readPayload_of_content hcontent]
    exact hrest
  | @group depth number inside records opening content ending bytes hopening _ hending _ ihinside
      ih =>
    have hpos := hopening.numeral.length_pos
    simp only [List.length_append] at hfuel
    obtain ⟨fuel, rfl⟩ : ∃ k, fuel = k + 1 := ⟨fuel - 1, by omega⟩
    have hcontent : (content ++ ending).length ≤ fuel := by
      rw [List.length_append]
      omega
    have hbytes : (bytes ++ closing).length ≤ fuel := by
      rw [List.length_append]
      omega
    -- The nested group is skipped first, and then the records behind it, both by the induction.
    have hskip := ihinside hending hcontent (bytes ++ (closing ++ rest)) hending.numeral.length_pos
    have hrest := ih hclosing hbytes rest hend
    have hkind : (3 : Nat) ≠ 4 := by decide
    simp only [List.append_assoc, skipGroup, hopening.readTag_append, Option.bind_eq_bind,
      Option.bind_some, if_neg hkind, readPayload, hskip, Option.map_some]
    exact hrest

/-- A group is read by `readRecord` as one record, with everything in it passed over. -/
theorem readRecord_group {depth field : Nat} {inside : List Record}
    {opening content closing : Bytes} (hopening : Tagged field 3 opening)
    (hinside : WellFormed depth inside content) (hclosing : Tagged field 4 closing) (rest : Bytes) :
    readRecord (depth + 1) (opening ++ (content ++ closing) ++ rest) =
      some (⟨field, .group⟩, rest) := by
  have hne : field ≠ 0 := Nat.ne_of_gt hopening.isFieldNumber.1
  have hfuel : (content ++ closing).length ≤ (content ++ (closing ++ rest)).length := by
    simp only [List.length_append]
    omega
  have hskip := hinside.skipGroup_append hclosing hfuel rest
  rw [List.append_assoc, List.append_assoc, readRecord, hopening.readTag_append]
  simp only [Option.bind_eq_bind, Option.bind_some, if_neg hne, readPayload, hskip, Option.map_some]
  rfl

/-- Well-formed records are read by `records?` one by one, and what stands behind them after them.
-/
theorem WellFormed.records?_append {depth : Nat} {records : List Record} {bytes : Bytes}
    (h : WellFormed depth records bytes) (rest : Bytes) :
    records? depth (bytes ++ rest) = (records ++ ·) <$> records? depth rest := by
  -- A record is read as it was written, and a group with all the records in it as one.
  induction h with
  | nil depth =>
    cases hrest : records? depth rest <;> simp [hrest]
  | @record depth field kind payload tag content bytes records htag hcontent _ ih =>
    have hread := Wire.records?_append (readsAs_of_content htag hcontent) depth (bytes ++ rest)
    rw [← List.append_assoc tag, List.append_assoc, hread, ih]
    cases records? depth rest <;> rfl
  | @group depth field inside records opening content closing bytes hopening hinside hclosing _ _
      ih =>
    have hgroup := readRecord_group hopening hinside hclosing (bytes ++ rest)
    have hread := records?_of_readRecord hgroup
    rw [← List.append_assoc content, ← List.append_assoc opening, List.append_assoc, hread, ih]
    cases records? (depth + 1) rest <;> rfl

/-- Records that are `WellFormed`, in front of others that are, are so with them. -/
theorem WellFormed.append {depth : Nat} {records records' : List Record} {bytes bytes' : Bytes}
    (h : WellFormed depth records bytes) (h' : WellFormed depth records' bytes') :
    WellFormed depth (records ++ records') (bytes ++ bytes') := by
  induction h with
  | nil => exact h'
  | record htag hcontent _ ih =>
    rw [List.append_assoc, List.append_assoc]
    exact .record htag hcontent (ih h')
  | group hopening hinside hclosing _ _ ih =>
    rw [List.append_assoc, List.append_assoc, List.append_assoc]
    exact .group hopening hinside hclosing (ih h')

end TypedOps.Wire
