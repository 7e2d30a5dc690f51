import TypedOps.Proofs.Message.Wire

/-!
# `TypedOps.Proofs.Message.Truncated`: records cut short are no records

No reader of the format looks at a byte that it does not take. What is read of some bytes is read
of them whatever stands behind (`readRecord_more`), and the rest grows by that. A beginning of a
record is therefore never read as a record: the reading would end there, in front of what was cut
off (`ReadsAs.readRecord_of_isPrefix`). It makes no difference where the cut falls, in a tag, in a
length, in a number or in content.

Bytes are read as records all together or not at all. So a beginning of records in a row is refused,
unless the cut falls between two of them (`records?_of_isPrefix_flatten`).
-/

set_option autoImplicit false

namespace TypedOps.Wire

/-! ### Reading does not look ahead -/

/-- What `readVarint` reads does not depend on the bytes behind it: with more of them it gives the
same, and leaves more. -/
theorem readVarint_more {limit n : Nat} {bytes rest : Bytes}
    (h : readVarint limit bytes = some (n, rest)) (more : Bytes) :
    readVarint limit (bytes ++ more) = some (n, rest ++ more) := by
  -- The induction is on the bound, which falls by one for each byte that is read.
  induction limit generalizing n bytes with
  | zero => cases h
  | succ limit ih =>
    cases bytes with
    | nil => cases h
    | cons b bytes =>
      rw [readVarint] at h
      rw [List.cons_append, readVarint]
      split at h
      · next hlast =>
        cases h
        rw [if_pos hlast]
      · next hmore =>
        obtain ⟨⟨m, rest'⟩, hrest, h⟩ := Option.map_eq_some_iff.mp h
        cases h
        rw [if_neg hmore, ih hrest, Option.map_some]

/-- What `readValue` reads does not depend on the bytes behind it. -/
theorem readValue_more {n : Nat} {bytes rest : Bytes} (h : readValue bytes = some (n, rest))
    (more : Bytes) : readValue (bytes ++ more) = some (n, rest ++ more) := by
  obtain ⟨⟨m, rest'⟩, hrest, h⟩ := Option.map_eq_some_iff.mp h
  cases h
  rw [readValue, readVarint_more hrest, Option.map_some]

/-- What `readTag` reads does not depend on the bytes behind it. -/
theorem readTag_more {field kind : Nat} {bytes rest : Bytes}
    (h : readTag bytes = some (field, kind, rest)) (more : Bytes) :
    readTag (bytes ++ more) = some (field, kind, rest ++ more) := by
  rw [readTag] at h
  split at h
  · next n between hread =>
    split at h
    · cases h
    · next hbits =>
      cases h
      rw [readTag, readVarint_more hread]
      exact if_neg hbits
  · cases h

/-- What `readBytes` reads off does not depend on the bytes behind those. -/
theorem readBytes_more {n : Nat} {bytes content rest : Bytes}
    (h : readBytes n bytes = some (content, rest)) (more : Bytes) :
    readBytes n (bytes ++ more) = some (content, rest ++ more) := by
  rw [readBytes] at h
  split at h
  · next hn =>
    cases h
    have hmore : n ≤ (bytes ++ more).length := by
      rw [List.length_append]
      omega
    rw [readBytes, if_pos hmore, List.take_append_of_le_length hn,
      List.drop_append_of_le_length hn]
  · cases h

/-- What `readPayload` reads does not depend on the bytes behind it, if finding the end of a group
does not. -/
theorem readPayload_more {skip skip' : Nat → Bytes → Option Bytes} {more : Bytes}
    (hskip : ∀ field bytes rest, skip field bytes = some rest →
      skip' field (bytes ++ more) = some (rest ++ more))
    {field kind : Nat} {bytes rest : Bytes} {payload : Payload}
    (h : readPayload skip field kind bytes = some (payload, rest)) :
    readPayload skip' field kind (bytes ++ more) = some (payload, rest ++ more) := by
  -- One case for each wire type, and in each of them the bytes behind are handed on.
  unfold readPayload at h
  split at h
  · obtain ⟨⟨n, rest'⟩, hrest, h⟩ := Option.map_eq_some_iff.mp h
    cases h
    rw [readPayload, readValue_more hrest, Option.map_some]
  · obtain ⟨⟨content, rest'⟩, hrest, h⟩ := Option.map_eq_some_iff.mp h
    cases h
    rw [readPayload, readBytes_more hrest, Option.map_some]
  · obtain ⟨⟨n, between⟩, hlength, h⟩ := Option.bind_eq_some_iff.mp h
    obtain ⟨⟨content, rest'⟩, hrest, h⟩ := Option.bind_eq_some_iff.mp h
    cases h
    have hlength' : readLength (bytes ++ more) = some (n, between ++ more) :=
      readVarint_more hlength more
    simp only [readPayload, hlength', readBytes_more hrest, Option.bind_eq_bind, Option.bind_some]
    rfl
  · obtain ⟨rest', hrest, h⟩ := Option.map_eq_some_iff.mp h
    cases h
    rw [readPayload, hskip _ _ _ hrest, Option.map_some]
  · obtain ⟨⟨content, rest'⟩, hrest, h⟩ := Option.map_eq_some_iff.mp h
    cases h
    rw [readPayload, readBytes_more hrest, Option.map_some]
  · cases h

/-- Where `skipGroup` finds the end of a group does not depend on the bytes behind it, nor on a
higher bound on the number of records. -/
theorem skipGroup_more {fuel fuel' depth field : Nat} {bytes rest : Bytes} (hfuel : fuel ≤ fuel')
    (h : skipGroup fuel depth field bytes = some rest) (more : Bytes) :
    skipGroup fuel' depth field (bytes ++ more) = some (rest ++ more) := by
  -- The bound on the records may be larger, since it counts bytes, and there are more of them.
  induction fuel generalizing fuel' depth field bytes rest with
  | zero => cases h
  | succ fuel ih =>
    obtain ⟨fuel', rfl⟩ : ∃ k, fuel' = k + 1 := ⟨fuel' - 1, by omega⟩
    have hfuel' : fuel ≤ fuel' := Nat.le_of_succ_le_succ hfuel
    cases depth with
    | zero => cases h
    | succ depth =>
      rw [skipGroup] at h
      obtain ⟨⟨number, kind, between⟩, htag, h⟩ := Option.bind_eq_some_iff.mp h
      rw [skipGroup, readTag_more htag, Option.bind_eq_bind, Option.bind_some]
      simp only at h ⊢
      split at h
      -- The group ends here, or one more payload of it is skipped.
      · next hend =>
        rw [if_pos hend]
        split at h
        · next hnumber =>
          cases h
          rw [if_pos hnumber]
        · cases h
      · next hpayload =>
        obtain ⟨⟨payload, behind⟩, hread, h⟩ := Option.bind_eq_some_iff.mp h
        have hskip : ∀ field bytes rest, skipGroup fuel depth field bytes = some rest →
            skipGroup fuel' depth field (bytes ++ more) = some (rest ++ more) :=
          fun _ _ _ => ih hfuel'
        have hread' := readPayload_more hskip hread
        rw [if_neg hpayload, hread']
        exact ih hfuel' h

/-- What `readRecord` reads does not depend on the bytes behind it. All lemmas on cut bytes rest on
this one. -/
theorem readRecord_more {depth : Nat} {bytes rest : Bytes} {record : Record}
    (h : readRecord depth bytes = some (record, rest)) (more : Bytes) :
    readRecord depth (bytes ++ more) = some (record, rest ++ more) := by
  obtain ⟨⟨field, kind, between⟩, htag, h⟩ := Option.bind_eq_some_iff.mp h
  rw [readRecord, readTag_more htag, Option.bind_eq_bind, Option.bind_some]
  simp only at h ⊢
  split at h
  · cases h
  · next hfield =>
    obtain ⟨⟨payload, rest'⟩, hpayload, h⟩ := Option.bind_eq_some_iff.mp h
    cases h
    -- With more bytes the bound for a group is larger as well, which does no harm.
    have hlonger : between.length ≤ (between ++ more).length := by simp
    have hskip : ∀ field bytes rest, skipGroup between.length depth field bytes = some rest →
        skipGroup (between ++ more).length depth field (bytes ++ more) = some (rest ++ more) :=
      fun _ _ _ hskip => skipGroup_more hlonger hskip more
    have hpayload' := readPayload_more hskip hpayload
    rw [if_neg hfield, hpayload']
    rfl

/-! ### Beginnings of records -/

/-- For `readRecord`, a beginning of a record is no record: if it were one, the whole would be read
as the same one with bytes left over. -/
theorem ReadsAs.readRecord_of_isPrefix {bytes start : Bytes} {record : Record}
    (h : ReadsAs bytes record) (hstart : start <+: bytes) (hne : start ≠ bytes) (depth : Nat) :
    readRecord depth start = none := by
  obtain ⟨more, rfl⟩ := hstart
  cases hread : readRecord depth start with
  | none => rfl
  | some result =>
    -- The reading goes on as it began, and leaves what was cut off.
    have hwhole := h depth []
    rw [List.append_nil, readRecord_more hread] at hwhole
    have hrest : result.2 ++ more = [] := congrArg Prod.snd (Option.some.inj hwhole)
    rw [(List.append_eq_nil_iff.mp hrest).2, List.append_nil] at hne
    exact absurd rfl hne

/-- For `records?`, a beginning of a record is not several records either, since the first of them
would be no record. -/
theorem ReadsAs.records?_of_isPrefix {bytes start : Bytes} {record : Record}
    (h : ReadsAs bytes record) (hstart : start <+: bytes) (hnil : start ≠ [])
    (hne : start ≠ bytes) (depth : Nat) : records? depth start = none := by
  have hread := h.readRecord_of_isPrefix hstart hne depth
  obtain ⟨b, start, rfl⟩ := List.exists_cons_of_ne_nil hnil
  rw [records?, List.length_cons, (readsMany_recordsFrom? depth).cons, hread, Option.bind_none]

/-- Records in a row that are cut short are read by `records?` only if the cut falls between two of
them. -/
theorem records?_of_isPrefix_flatten {pieces : List Bytes}
    (h : ∀ piece ∈ pieces, ∃ record, ReadsAs piece record) {start : Bytes}
    (hstart : start <+: pieces.flatten) (depth : Nat) :
    (∃ k, start = (pieces.take k).flatten) ∨ records? depth start = none := by
  -- The induction is on the records. The cut falls into the first of them or behind it.
  induction pieces generalizing start with
  | nil => exact .inl ⟨0, List.prefix_nil.mp hstart⟩
  | cons piece pieces ih =>
    rw [List.forall_mem_cons] at h
    obtain ⟨⟨record, hpiece⟩, hpieces⟩ := h
    rw [List.flatten_cons] at hstart
    rcases List.prefix_or_prefix_of_prefix hstart (List.prefix_append piece _) with hin | hbehind
    · -- The cut falls into the first record, or at one of its ends.
      by_cases hnil : start = []
      · exact .inl ⟨0, hnil⟩
      by_cases hall : start = piece
      · exact .inl ⟨1, by simpa using hall⟩
      · exact .inr (hpiece.records?_of_isPrefix hin hnil hall depth)
    · obtain ⟨start, rfl⟩ := hbehind
      rcases ih hpieces ((List.prefix_append_right_inj piece).mp hstart) with ⟨k, rfl⟩ | hnone
      · exact .inl ⟨k + 1, by rw [List.take_succ_cons, List.flatten_cons]⟩
      · right
        rw [records?_append hpiece, hnone]
        rfl

end TypedOps.Wire
