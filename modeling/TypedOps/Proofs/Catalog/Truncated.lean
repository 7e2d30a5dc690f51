import TypedOps.Proofs.Catalog.RoundTrip
import TypedOps.Proofs.Message.Truncated

/-!
# `TypedOps.Proofs.Catalog.Truncated`: no truncated catalog passes for a whole one

A catalog in binary form is one record for each operation, and the length in front of a record
covers everything in it. A catalog that was cut between two operations is the catalog of those in
front of the cut. Any other cut is noticed, however deep inside an operation it falls: what is left
of the operation might be read as a shorter one, but its length asks for more
(`binaryOperations_of_isPrefix`).
-/

set_option autoImplicit false

namespace TypedOps.Catalog

/-- The record of an operation as `encode` writes it into a catalog. -/
def operationRecord (op : OperationDef) : Bytes :=
  Wire.delimitedRecord 1 (OperationDef.schema.encode op)

/-- A catalog in binary form is the `operationRecord`s of its operations, one after the other, with
nothing in front, between or behind. -/
theorem encode_eq (operations : List OperationDef) :
    encode operations = (operations.map operationRecord).flatten :=
  List.append_nil _

/-- The first operations of a catalog have the first `operationRecord`s of it, so cutting the list
is cutting the bytes between two records. -/
theorem encode_take (operations : List OperationDef) (k : Nat) :
    encode (operations.take k) = ((operations.map operationRecord).take k).flatten := by
  rw [encode_eq, List.map_take]

/-- An `operationRecord` is no longer than the catalog, so the length limit holds for it too. -/
theorem length_operationRecord_le {operations : List OperationDef} {op : OperationDef}
    (hop : op ∈ operations) : (operationRecord op).length ≤ (encode operations).length := by
  rw [encode_eq, ← List.flatMap_def]
  exact length_le_length_flatMap operationRecord hop

/-- A beginning of a catalog is that of its first operations, or `decode?` refuses it: it then ends
within the record of an operation. -/
theorem decode?_of_isPrefix {operations : List OperationDef}
    (hlength : (encode operations).length < Wire.lengthLimit) {content : Bytes}
    (hstart : content <+: encode operations) :
    (∃ k, content = encode (operations.take k)) ∨ decode? content = none := by
  have hrecords : ∀ piece ∈ operations.map operationRecord,
      ∃ record, Wire.ReadsAs piece record := by
    refine List.forall_mem_map.mpr fun op hop => ?_
    have hrecord := Nat.lt_of_le_of_lt (length_operationRecord_le hop) hlength
    have hcontent := Wire.length_lt_of_delimitedRecord hrecord
    exact ⟨_, Wire.readsAs_delimitedRecord (by decide) hcontent⟩
  rw [encode_eq] at hstart
  rcases Wire.records?_of_isPrefix_flatten hrecords hstart Schema.depthLimit with ⟨k, hk⟩ | hnone
  · exact .inl ⟨k, hk.trans (encode_take operations k).symm⟩
  · right
    rw [decode?, Schema.decode?, Schema.merge?, hnone]
    rfl

/-- Whatever is left of a catalog is decoded to the operations that are left whole, if it ends
behind one of them, and is refused otherwise. The operations are any that a catalog can hold, and
operations made by hand are such ones (`OperationDef.storable_of_definition`). -/
theorem binaryOperations_of_isPrefix {operations : List OperationDef}
    (hstorable : ∀ op ∈ operations, op.Storable)
    (hlength : (encode operations).length < Wire.lengthLimit) {content : Bytes}
    (hstart : content <+: encode operations) :
    (∀ k, content = encode (operations.take k) →
        binaryOperations content = .ok (operations.take k)) ∧
      ((∀ k, content ≠ encode (operations.take k)) →
        binaryOperations content = .error .catalogMalformed) := by
  constructor
  · rintro k rfl
    have htake : ∀ op ∈ operations.take k, op.Storable := fun op hop =>
      hstorable op (List.mem_of_mem_take hop)
    have hshorter := Nat.lt_of_le_of_lt hstart.length_le hlength
    rw [binaryOperations, decode?_encode htake hshorter]
  · intro hinside
    rcases decode?_of_isPrefix hlength hstart with ⟨k, hk⟩ | hnone
    · exact absurd hk (hinside k)
    · rw [binaryOperations, hnone]

/-- Two operations. The second one would be an operation without its summary, too. -/
def cutSample : List OperationDef := [{ name := "A" }, { name := "B", summary := "S" }]

/-- The operations of `cutSample`, cut behind the first one, and in front of the summary of the
second. -/
theorem binaryOperations_of_isPrefix_sample :
    (∀ op ∈ cutSample, op.Storable) ∧ (encode cutSample).length < Wire.lengthLimit ∧
      encode cutSample = [10, 3, 10, 1, 65, 10, 6, 10, 1, 66, 42, 1, 83] ∧
      binaryOperations [10, 3, 10, 1, 65] = .ok (cutSample.take 1) ∧
      binaryOperations [10, 3, 10, 1, 65, 10, 6, 10, 1, 66] = .error .catalogMalformed := by
  have hstorable : ∀ op ∈ cutSample, op.Storable := by
    simp only [cutSample, List.forall_mem_cons]
    refine ⟨⟨?_, ?_, ?_, ?_⟩, ⟨?_, ?_, ?_, ?_⟩, ?_⟩ <;> simp
  have hbytes : encode cutSample = [10, 3, 10, 1, 65, 10, 6, 10, 1, 66, 42, 1, 83] := by
    decide
  have hlength : (encode cutSample).length < Wire.lengthLimit := by rw [hbytes]; decide
  -- The one cut is between two operations, the other inside the second one.
  have hbetween : [10, 3, 10, 1, 65] <+: encode cutSample := by rw [hbytes]; decide
  have hinside : [10, 3, 10, 1, 65, 10, 6, 10, 1, 66] <+: encode cutSample := by
    rw [hbytes]
    decide
  refine ⟨hstorable, hlength, hbytes, ?_, ?_⟩
  · exact (binaryOperations_of_isPrefix hstorable hlength hbetween).1 1 (by decide)
  · refine (binaryOperations_of_isPrefix hstorable hlength hinside).2 fun k => ?_
    match k with
    | 0 => decide
    | 1 => decide
    | k + 2 =>
      rw [List.take_of_length_le (Nat.le_add_left 2 k), hbytes]
      decide

end TypedOps.Catalog
