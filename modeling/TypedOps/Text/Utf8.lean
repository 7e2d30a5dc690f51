import TypedOps.Text.Basic

/-!
# `TypedOps.Text.Utf8`: texts as bytes

`segments` cuts bytes into well-formed sequences and malformed parts. A
malformed part is the longest beginning of a well-formed sequence that the
bytes still allow, or a single byte that begins none. The strict decoder
refuses any malformed part; the lenient one puts U+FFFD in the place of each.

Surrogates, overlong forms and values past U+10FFFF are ruled out by the range
of the second byte, as in the table of well-formed sequences of the Unicode
standard.
-/

set_option autoImplicit false

namespace TypedOps.Utf8

/-- The bytes of one code point. -/
def encodeChar (c : Char) : Bytes :=
  let n := c.toNat
  if n < 0x80 then [UInt8.ofNat n]
  else if n < 0x800 then
    [UInt8.ofNat (0xC0 + n / 64), UInt8.ofNat (0x80 + n % 64)]
  else if n < 0x10000 then
    [UInt8.ofNat (0xE0 + n / 4096), UInt8.ofNat (0x80 + n / 64 % 64), UInt8.ofNat (0x80 + n % 64)]
  else
    [UInt8.ofNat (0xF0 + n / 262144), UInt8.ofNat (0x80 + n / 4096 % 64),
      UInt8.ofNat (0x80 + n / 64 % 64), UInt8.ofNat (0x80 + n % 64)]

/-- The bytes of a text, each code point by `encodeChar`. -/
def encode (t : Text) : Bytes := t.flatMap encodeChar

/-- Whether a byte continues a sequence. -/
def isContinuation (b : UInt8) : Bool := 0x80 ≤ b.toNat && b.toNat ≤ 0xBF

/-- Whether a byte may follow the given first byte of a sequence. -/
def mayFollow (first second : UInt8) : Bool :=
  let s := second.toNat
  match first.toNat with
  | 0xE0 => 0xA0 ≤ s && s ≤ 0xBF
  | 0xED => 0x80 ≤ s && s ≤ 0x9F
  | 0xF0 => 0x90 ≤ s && s ≤ 0xBF
  | 0xF4 => 0x80 ≤ s && s ≤ 0x8F
  | _ => isContinuation second

/-- The six low bits that a continuation byte carries. -/
def low (b : UInt8) : Nat := b.toNat % 64

/-- What the bytes begin with: a code point or, as `none`, a malformed part,
together with the number of bytes it takes after the first. -/
def front (a : UInt8) (rest : Bytes) : Option Char × Nat :=
  let n := a.toNat
  if n < 0x80 then (some (Char.ofNat n), 0)
  else if n < 0xC2 || 0xF5 ≤ n then (none, 0)
  else
    match rest with
    | [] => (none, 0)
    | b :: rest =>
      if !mayFollow a b then (none, 0)
      else if n < 0xE0 then (some (Char.ofNat (n % 32 * 64 + low b)), 1)
      else
        match rest with
        | [] => (none, 1)
        | c :: rest =>
          if !isContinuation c then (none, 1)
          else if n < 0xF0 then
            (some (Char.ofNat (n % 16 * 4096 + low b * 64 + low c)), 2)
          else
            match rest with
            | [] => (none, 2)
            | d :: _ =>
              if !isContinuation d then (none, 2)
              else (some (Char.ofNat (n % 8 * 262144 + low b * 4096 + low c * 64 + low d)), 3)

/-- The segments of the bytes behind the next `skip` ones. -/
def segmentsFrom : (skip : Nat) → Bytes → List (Option Char)
  | _, [] => []
  | skip + 1, _ :: rest => segmentsFrom skip rest
  | 0, a :: rest => (front a rest).1 :: segmentsFrom (front a rest).2 rest

/-- The well-formed sequences and malformed parts of the bytes, in order; a
malformed part is `none`. -/
def segments (bytes : Bytes) : List (Option Char) := segmentsFrom 0 bytes

/-- The text of well-formed bytes, or nothing if one of the `segments` is malformed. -/
def decode? (bytes : Bytes) : Option Text := (segments bytes).mapM id

/-- The text of any bytes, with U+FFFD for each of the `segments` that is malformed. -/
def decodeLenient (bytes : Bytes) : Text := (segments bytes).map (·.getD '\uFFFD')

end TypedOps.Utf8
