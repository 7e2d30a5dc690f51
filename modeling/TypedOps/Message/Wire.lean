import TypedOps.Number.MachineInt
import TypedOps.Text.Basic

/-!
# `TypedOps.Message.Wire`: the binary record format

Serialized messages are sequences of records. A record is a tag, which holds a
field number and a kind, and a payload of that kind. Reading records needs no
schema, so truncation, bad tags and unmatched groups are found here; what the
numbers mean is the business of `TypedOps.Message.Field`.

* `Wire.records?` reads all of the bytes or nothing. Groups nest only so deep.
* `Wire.varintRecord`, `Wire.delimitedRecord` and `Wire.fixed32Record` write records.
-/

set_option autoImplicit false

namespace TypedOps.Wire

/-- What a record carries. The content of a group is read and dropped, since no
message of this library has one. -/
inductive Payload where
  | varint (value : Nat)
  | fixed64 (content : Bytes)
  | delimited (content : Bytes)
  | group
  | fixed32 (content : Bytes)
deriving DecidableEq, Repr

/-- A field number and a `Payload`. -/
structure Record where
  field : Nat
  payload : Payload
deriving DecidableEq, Repr

/-! ## Writing -/

/-- Seven bits a byte, the lowest first, every byte but the last with its top bit
set. A number has fewer bytes than bits. -/
def varintFrom : (fuel : Nat) → Nat → Bytes
  | 0, n => [UInt8.ofNat n]
  | fuel + 1, n =>
    if n < 128 then [UInt8.ofNat n]
    else UInt8.ofNat (128 + n % 128) :: varintFrom fuel (n / 128)

/-- The shortest form of a number, which is the one that is written. -/
def varint (n : Nat) : Bytes := varintFrom n.log2 n

/-- The tag of a field and a kind, which has the kind in its low three bits. -/
def tag (field kind : Nat) : Bytes := varint (field * 8 + kind)

/-- Bytes with their length in front. -/
def delimited (content : Bytes) : Bytes := varint content.length ++ content

/-- The record of a `varint`, behind its tag. -/
def varintRecord (field value : Nat) : Bytes := tag field 0 ++ varint value

/-- The record of a byte string, `delimited` by its length. -/
def delimitedRecord (field : Nat) (content : Bytes) : Bytes := tag field 2 ++ delimited content

/-- The record of four bytes, such as `fixed32` gives. -/
def fixed32Record (field : Nat) (content : Bytes) : Bytes := tag field 5 ++ content

/-- A number in four bytes, the lowest first. -/
def fixed32 (n : Nat) : Bytes :=
  [UInt8.ofNat n, UInt8.ofNat (n / 256), UInt8.ofNat (n / 65536), UInt8.ofNat (n / 16777216)]

/-- The number in four bytes, the lowest first. It is read as `fixed32` writes it. -/
def fixed32Value (content : Bytes) : Nat :=
  content.foldr (fun b n => b.toNat + 256 * n) 0

/-! ## Reading -/

/-- A number of at most `limit` bytes and the rest. -/
def readVarint : (limit : Nat) → Bytes → Option (Nat × Bytes)
  | 0, _ => none
  | _ + 1, [] => none
  | limit + 1, b :: rest =>
    if b.toNat < 128 then some (b.toNat, rest)
    else (readVarint limit rest).map fun (n, rest) => (b.toNat - 128 + 128 * n, rest)

/-- A number of at most ten bytes, of which sixty-four bits count. -/
def readValue (bytes : Bytes) : Option (Nat × Bytes) :=
  (readVarint 10 bytes).map fun (n, rest) => (n % MachineInt.patterns 64, rest)

/-- The length of what follows, by `readVarint`. It takes at most five bytes. -/
def readLength (bytes : Bytes) : Option (Nat × Bytes) := readVarint 5 bytes

/-- A field number and a kind. A tag has thirty-two bits and five bytes at
most. -/
def readTag (bytes : Bytes) : Option (Nat × Nat × Bytes) :=
  match readVarint 5 bytes with
  | some (n, rest) => if MachineInt.patterns 32 ≤ n then none else some (n / 8, n % 8, rest)
  | none => none

/-- The first `n` bytes and the rest, if there are so many. -/
def readBytes (n : Nat) (bytes : Bytes) : Option (Bytes × Bytes) :=
  if n ≤ bytes.length then some (bytes.take n, bytes.drop n) else none

/-- The payload of a record; `skipGroup` finds the end of a group of the given
field. -/
def readPayload (skipGroup : Nat → Bytes → Option Bytes) (field kind : Nat) (bytes : Bytes) :
    Option (Payload × Bytes) :=
  match kind with
  | 0 => (readValue bytes).map fun (n, rest) => (.varint n, rest)
  | 1 => (readBytes 8 bytes).map fun (content, rest) => (.fixed64 content, rest)
  | 2 => do
    let (n, rest) ← readLength bytes
    let (content, rest) ← readBytes n rest
    return (.delimited content, rest)
  | 3 => (skipGroup field bytes).map fun rest => (.group, rest)
  | 5 => (readBytes 4 bytes).map fun (content, rest) => (.fixed32 content, rest)
  | _ => none

/-- The bytes behind the end mark of a group, which holds at most `depth` levels
of groups, itself among them. In a group that is dropped every field number will
do. Every record takes at least a byte, so `fuel` need not exceed the number of
bytes. -/
def skipGroup : (fuel depth : Nat) → (field : Nat) → Bytes → Option Bytes
  | 0, _, _, _ => none
  | _, 0, _, _ => none
  | fuel + 1, depth + 1, field, bytes => do
    let (number, kind, rest) ← readTag bytes
    if kind = 4 then
      if number = field then some rest else none
    else
      let (_, rest) ← readPayload (skipGroup fuel depth) number kind rest
      skipGroup fuel (depth + 1) field rest

/-- One `Record` of a message and the rest. No field has the number zero. -/
def readRecord (depth : Nat) (bytes : Bytes) : Option (Record × Bytes) := do
  let (field, kind, rest) ← readTag bytes
  if field = 0 then none
  else
    let (payload, rest) ← readPayload (skipGroup rest.length depth) field kind rest
    return (⟨field, payload⟩, rest)

/-- All records, at most `fuel` of them. -/
def recordsFrom? (depth : Nat) : (fuel : Nat) → Bytes → Option (List Record)
  | _, [] => some []
  | 0, _ :: _ => none
  | fuel + 1, bytes => do
    let (record, rest) ← readRecord depth bytes
    (record :: ·) <$> recordsFrom? depth fuel rest

/-- The records that make up the bytes, with at most `depth` levels of groups in
them. A record takes at least a byte. -/
def records? (depth : Nat) (bytes : Bytes) : Option (List Record) :=
  recordsFrom? depth bytes.length bytes

/-- The numbers that make up a packed field, at most `fuel` of them. -/
def packedVarintsFrom? : (fuel : Nat) → Bytes → Option (List Nat)
  | _, [] => some []
  | 0, _ :: _ => none
  | fuel + 1, bytes => do
    let (n, rest) ← readValue bytes
    (n :: ·) <$> packedVarintsFrom? fuel rest

/-- The numbers that make up a packed field, by `packedVarintsFrom?` its beginning. -/
def packedVarints? (bytes : Bytes) : Option (List Nat) := packedVarintsFrom? bytes.length bytes

/-- The numbers that make up a packed field, each a `fixed32Value`. -/
def packedFixed32? : Bytes → Option (List Nat)
  | [] => some []
  | a :: b :: c :: d :: rest => (fixed32Value [a, b, c, d] :: ·) <$> packedFixed32? rest
  | _ => none

end TypedOps.Wire
