import TypedOps.Message.Reader
import TypedOps.Message.Wire

/-!
# `TypedOps.Message.Field`: message types as lists of fields

A message type is a list of fields, and a field says everything about itself: its
number in the binary form, its name in the text form, and how both forms are
stored in and taken from the structure that holds the message. Decoding, encoding
and text reading are then the same three functions for every message type.

The binary form merges: a repeated field grows, a single message takes further
records into what it holds, a single scalar keeps the last. The text form refuses
a second value instead, except that a scalar still at its default cannot be told
from one that was never given.
-/

set_option autoImplicit false

namespace TypedOps

open Wire (Payload)

/-- A kind of scalar. `ofPayload` answers `none` for a payload that the kind does
not use and `some none` for one that it cannot read. Only a kind with
`packedItem?` can be packed. -/
structure Scalar (α : Type) where
  ofPayload : Payload → Option (Option α)
  record : Nat → α → Bytes
  packed? : Bytes → Option (List α)
  packedItem? : Option (α → Bytes)
  isDefault : α → Bool
  read : Reader α
  inRange : α → Bool := fun _ => true

namespace Scalar

/-- A kind stored as a varint, which is also how it is packed. -/
def ofVarint {α : Type} (ofNat : Nat → α) (toNat : α → Nat) (isDefault : α → Bool)
    (read : Reader α) (inRange : α → Bool) : Scalar α where
  ofPayload
    | .varint n => some (some (ofNat n))
    | _ => none
  record field v := Wire.varintRecord field (toNat v)
  packed? content := (Wire.packedVarints? content).map (·.map ofNat)
  packedItem? := some fun v => Wire.varint (toNat v)
  isDefault := isDefault
  read := read
  inRange := inRange

/-- Integers of sixty-four bits, stored by `ofVarint`. In text form a number out of range is
refused. -/
def int64 : Scalar Int :=
  ofVarint (MachineInt.signed 64) (MachineInt.pattern 64) (· == 0)
    (Reader.spelling (Reader.integerThat? (MachineInt.fits 64))) fun _ => true

/-- Integers of thirty-two bits, stored by `ofVarint`. They are written with sixty-four. -/
def int32 : Scalar Int :=
  ofVarint (MachineInt.signed 32) (MachineInt.pattern 64) (· == 0)
    (Reader.spelling (Reader.integerThat? (MachineInt.fits 32))) fun _ => true

/-- Enumerations, stored by `ofVarint`. A number need not have a name, but has to have thirty-two
bits. -/
def enumeration (number? : Text → Option Int) : Scalar Int :=
  ofVarint (MachineInt.signed 32) (MachineInt.pattern 64) (· == 0)
    (Reader.spelling fun t => (Integer.read? t).or (number? t)) (MachineInt.fits 32)

/-- Truth values, stored by `ofVarint`. Any varint but zero is true. -/
def bool : Scalar Bool :=
  ofVarint (· != 0) Bool.toNat (· == false) (Reader.spelling Reader.bool?) fun _ => true

/-- Single-precision numbers. A text is read as a double and then rounded. -/
def float : Scalar Floating where
  ofPayload
    | .fixed32 content => some (some (Floating.ofSingleBits (Wire.fixed32Value content)))
    | _ => none
  record field x := Wire.fixed32Record field (Wire.fixed32 x.toSingleBits)
  packed? content := (Wire.packedFixed32? content).map (·.map Floating.ofSingleBits)
  packedItem? := some fun x => Wire.fixed32 x.toSingleBits
  isDefault x := x == Floating.zero false
  read := Reader.spelling fun t => (Reader.double? t).map Floating.Format.single.convert

/-- Byte strings. -/
def bytes : Scalar Bytes where
  ofPayload
    | .delimited content => some (some content)
    | _ => none
  record := Wire.delimitedRecord
  packed? _ := none
  packedItem? := none
  isDefault content := content == []
  read := Reader.bytes

/-- Texts, written by `Utf8.encode`. -/
def text : Scalar Text where
  ofPayload
    | .delimited content => some (Utf8.decode? content)
    | _ => none
  record field t := Wire.delimitedRecord field (Utf8.encode t)
  packed? _ := none
  packedItem? := none
  isDefault t := t == []
  read := Reader.text

/-- Read a value and check that it can be stored. -/
def readStorable {α : Type} (kind : Scalar α) (store : α → Except ReadFault Unit) : Reader α :=
  fun tokens => do
    let (v, rest) ← kind.read tokens
    store v
    if kind.inRange v then return (v, rest) else throw .outOfRange

end Scalar

/-- A field of the message type held by `M`. `load` stores a payload, or fails if
it is malformed or has more levels of messages and groups in it than the given
number; `save` writes the field's records; `read` takes what stands behind the
field's name. -/
structure Field (M : Type) where
  number : Nat
  name : Text
  load : (depth : Nat) → Payload → M → Option M
  save : M → Bytes
  read : M → Reader M

/-- A message type: each `Field` in the order of their numbers, and the message with none of them
set. -/
structure Schema (M : Type) where
  fields : List (Field M)
  empty : M

namespace Schema

variable {M : Type}

/-- Store a `Wire.Record`. A field that the type does not declare is passed over. -/
def loadRecord (schema : Schema M) (depth : Nat) (m : M) (record : Wire.Record) : Option M :=
  match schema.fields.find? (·.number == record.field) with
  | some field => field.load depth record.payload m
  | none => some m

/-- Store the records that make up the bytes, with at most `depth` levels of
messages and groups in them. -/
def merge? (schema : Schema M) (depth : Nat) (m : M) (content : Bytes) : Option M := do
  (← Wire.records? depth content).foldlM (schema.loadRecord depth) m

/-- Store what a payload one level further in holds, by `merge?`. -/
def mergeNested? (schema : Schema M) (depth : Nat) (m : M) (content : Bytes) : Option M :=
  match depth with
  | 0 => none
  | depth + 1 => schema.merge? depth m content

/-- How many levels of messages and groups a message may have in it. -/
def depthLimit : Nat := 100

/-- The message that the bytes hold, with at most `depthLimit` levels in it, or nothing if they hold
none. -/
def decode? (schema : Schema M) (content : Bytes) : Option M :=
  schema.merge? depthLimit schema.empty content

/-- The bytes of a message, field by field in the order of its type. -/
def encode (schema : Schema M) (m : M) : Bytes := schema.fields.flatMap (·.save m)

/-- What reads the `Field` with the given name in the text form, if the type declares it. -/
def reader? (schema : Schema M) (name : Text) : Option (M → Reader M) :=
  (schema.fields.find? (·.name == name)).map (·.read)

/-- Read the fields of a block that `closer` ends. -/
def readBlock (schema : Schema M) (closer : Char) (m : M) : Reader M :=
  Reader.fields schema.reader? (some closer) m

/-- The message that a text holds, or why it cannot be read: its tokens go through `Reader.fields`.
-/
def ofText (schema : Schema M) (t : Text) : Except ReadFault M :=
  (Reader.fields schema.reader? none schema.empty (Token.ofText t)).map (·.1)

end Schema

namespace Field

variable {M N α : Type}

/-- A single `Scalar`, left out of the binary form at its default. -/
def scalar (number : Nat) (name : Text) (kind : Scalar α) (get : M → α) (set : M → α → M) :
    Field M where
  number := number
  name := name
  load _ payload m :=
    match kind.ofPayload payload with
    | some (some v) => some (set m v)
    | some none => none
    | none => some m
  save m := if kind.isDefault (get m) then [] else kind.record number (get m)
  read m tokens := do
    let rest ← Reader.expect ':' tokens
    let fresh (_ : α) := if kind.isDefault (get m) then .ok () else .error .malformed
    let (v, rest) ← kind.readStorable fresh rest
    return (set m v, rest)

/-- Any number of values of one `Scalar` kind, in the order in which they come. -/
def scalars (number : Nat) (name : Text) (kind : Scalar α) (get : M → List α)
    (set : M → List α → M) : Field M where
  number := number
  name := name
  load _ payload m :=
    match kind.ofPayload payload with
    | some (some v) => some (set m (get m ++ [v]))
    | some none => none
    | none =>
      match payload, kind.packedItem? with
      | .delimited content, some _ => (kind.packed? content).map fun vs => set m (get m ++ vs)
      | _, _ => some m
  save m :=
    match kind.packedItem? with
    | none => (get m).flatMap (kind.record number)
    | some item =>
      if (get m).isEmpty then [] else Wire.delimitedRecord number ((get m).flatMap item)
  read m tokens := do
    let rest ← Reader.expect ':' tokens
    let item (m : M) : Reader M := fun tokens => do
      let (v, rest) ← kind.readStorable (fun _ => .ok ()) tokens
      return (set m (get m ++ [v]), rest)
    Reader.oneOrList item m rest

/-- A single message of the `Schema`. Given again, it is merged into the one that is there in the
binary form, and refused in the text form. -/
def message (number : Nat) (name : Text) (schema : Schema N) (get : M → Option N)
    (set : M → N → M) : Field M where
  number := number
  name := name
  load depth payload m :=
    match payload with
    | .delimited content =>
      (schema.mergeNested? depth ((get m).getD schema.empty) content).map (set m)
    | _ => some m
  save m :=
    match get m with
    | some n => Wire.delimitedRecord number (schema.encode n)
    | none => []
  read m tokens := do
    let (closer, rest) ← Reader.openBlock (Reader.pass ':' tokens)
    if (get m).isSome then throw .malformed
    let (n, rest) ← schema.readBlock closer schema.empty rest
    return (set m n, rest)

/-- Any number of messages of the `Schema`, in the order in which they come. -/
def messages (number : Nat) (name : Text) (schema : Schema N) (get : M → List N)
    (set : M → List N → M) : Field M where
  number := number
  name := name
  load depth payload m :=
    match payload with
    | .delimited content =>
      (schema.mergeNested? depth schema.empty content).map fun n => set m (get m ++ [n])
    | _ => some m
  save m := (get m).flatMap fun n => Wire.delimitedRecord number (schema.encode n)
  read m tokens :=
    let item (m : M) : Reader M := fun tokens => do
      let (closer, rest) ← Reader.openBlock tokens
      let (n, rest) ← schema.readBlock closer schema.empty rest
      return (set m (get m ++ [n]), rest)
    Reader.oneOrList item m (Reader.pass ':' tokens)

/-- A scalar that excludes the other members of its choice. It is written even at
its default, and in the text form no member may be given twice or beside
another; `taken` says whether any member is set. -/
def choiceScalar (number : Nat) (name : Text) (kind : Scalar α) (taken : M → Bool)
    (get : M → Option α) (set : M → α → M) : Field M where
  number := number
  name := name
  load _ payload m :=
    match kind.ofPayload payload with
    | some (some v) => some (set m v)
    | some none => none
    | none => some m
  save m := ((get m).map (kind.record number)).getD []
  read m tokens := do
    if taken m && (get m).isNone then throw .malformed
    let rest ← Reader.expect ':' tokens
    let fresh (_ : α) := if taken m then .error .malformed else .ok ()
    let (v, rest) ← kind.readStorable fresh rest
    return (set m v, rest)

/-- A `message` that excludes the other members of its choice. -/
def choiceMessage (number : Nat) (name : Text) (schema : Schema N) (taken : M → Bool)
    (get : M → Option N) (set : M → N → M) : Field M where
  number := number
  name := name
  load := (message number name schema get set).load
  save := (message number name schema get set).save
  read m tokens :=
    if taken m && (get m).isNone then .error .malformed
    else (message number name schema get set).read m tokens

end Field

end TypedOps
