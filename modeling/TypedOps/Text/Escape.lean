import TypedOps.Text.CharacterName
import TypedOps.Text.Utf8

/-!
# `TypedOps.Text.Escape`: backslash escapes of string literals

`escape` writes a text so that it can stand between quotes on one line.
`unescape?` reads the body of a literal in three passes, each of which takes a
backslash together with the code point behind it:

1. a hexadecimal escape with a single digit is padded to two;
2. the four- and eight-digit escapes become the code points they name, while a
   backslash in front of a code point past U+00FF turns that code point into the
   spelled-out text of its escape;
3. the remaining text, as bytes, is read for letter, octal, hexadecimal and name
   escapes; a line break behind a backslash vanishes with it, and an unknown
   escape stays as it is.

The result is a byte string: an escape may name any byte.
-/

set_option autoImplicit false

namespace TypedOps.Text

/-- One code point of an escaped text. Code points past ASCII stay. -/
def escapedChar (c : Char) : Text :=
  if c = '\n' then "\\n"
  else if c = '\r' then "\\r"
  else if c = '\t' then "\\t"
  else if c = '"' then "\\\""
  else if c = '\'' then "\\'"
  else if c = '\\' then "\\\\"
  else if c.toNat < 32 || c.toNat = 127 then '\\' :: padded 8 3 c.toNat
  else [c]

/-- The text with quotes, backslashes and control characters escaped, each by `escapedChar`. -/
def escape (t : Text) : Text := t.flatMap escapedChar

/-- Read a text for escapes. `escape?` gets what stands behind a backslash and
answers with what the escape becomes and how many code points it takes; `plain`
is what any other code point becomes. The first `skip` code points are dropped. -/
def readEscapes {α : Type} (escape? : Text → Option (List α × Nat)) (plain : Char → List α) :
    (skip : Nat) → Text → Option (List α)
  | _, [] => some []
  | skip + 1, _ :: rest => readEscapes escape? plain skip rest
  | 0, c :: rest =>
    if c = '\\' then do
      let (items, used) ← escape? rest
      (items ++ ·) <$> readEscapes escape? plain used rest
    else (plain c ++ ·) <$> readEscapes escape? plain 0 rest

/-- A hexadecimal escape with its digits padded to two; other escapes stay. -/
def paddedHexEscape : Text → Text × Nat
  | 'x' :: d :: rest =>
    if isDigitOf 16 d && !(rest.head?.any (isDigitOf 16)) then (['\\', 'x', '0', d], 2)
    else ("\\x", 1)
  | c :: _ => (['\\', c], 1)
  | [] => (['\\'], 0)

/-- The first pass: hexadecimal escapes get two digits, by `paddedHexEscape`. -/
def padHexEscapes? (t : Text) : Option Text :=
  readEscapes (some ∘ paddedHexEscape) (fun c => [c]) 0 t

/-- The code point named by exactly the given hexadecimal digits, unless they
are no digits or name a surrogate or nothing at all. -/
def namedChar? (digits : Text) : Option Char :=
  if digits.all (isDigitOf 16) then
    let n := digitsValue 16 digits
    if n.isValidChar then some (Char.ofNat n) else none
  else none

/-- A code point past U+00FF as the text of its own escape, behind an escaped
backslash. -/
def spelledOut (c : Char) : Text :=
  if c.toNat < 0x10000 then "\\\\u" ++ padded 16 4 c.toNat else "\\\\U" ++ padded 16 8 c.toNat

/-- What an escape of four or eight digits names, by `namedChar?`; other escapes stay. -/
def namedEscape? : Text → Option (Text × Nat)
  | 'u' :: rest =>
    if rest.length < 4 then none
    else (namedChar? (rest.take 4)).map fun c => ([c], 5)
  | 'U' :: rest =>
    if rest.length < 8 then none
    else (namedChar? (rest.take 8)).map fun c => ([c], 9)
  | c :: _ => some (if c.toNat < 0x100 then ['\\', c] else spelledOut c, 1)
  | [] => some (['\\'], 0)

/-- The second pass: escapes of four and eight digits, by `namedEscape?`. -/
def nameEscapes? (t : Text) : Option Text := readEscapes namedEscape? (fun c => [c]) 0 t

/-- The byte that a letter escape stands for. -/
def letterEscape? (c : Char) : Option UInt8 :=
  match c with
  | '\\' => some 92
  | '\'' => some 39
  | '"' => some 34
  | 'a' => some 7
  | 'b' => some 8
  | 'f' => some 12
  | 'n' => some 10
  | 'r' => some 13
  | 't' => some 9
  | 'v' => some 11
  | _ => none

/-- The byte with the given number, if there is one. -/
def byte? (n : Nat) : Option UInt8 := if n < 256 then some (UInt8.ofNat n) else none

/-- The byte named by exactly `n` hexadecimal digits at the front of a text, and
the number of code points taken by them and the letter before them. -/
def hexByte? (n : Nat) (t : Text) : Option (Bytes × Nat) :=
  let digits := t.take n
  if digits.length = n && digits.all (isDigitOf 16) then
    (byte? (digitsValue 16 digits)).map fun b => ([b], n + 1)
  else none

/-- The byte named between braces at the front of a text, by `byteNamed?`, and the number of code
points taken by them and the letter before them. -/
def nameByte? : Text → Option (Bytes × Nat)
  | '\x7b' :: rest =>
    match cut '\x7d' rest with
    | (name, some _) => (byteNamed? name).map fun b => ([b], name.length + 3)
    | (_, none) => none
  | _ => none

/-- The bytes of one escape. An octal escape takes up to three digits; a
hexadecimal one takes two, and four or eight where an earlier pass left such an
escape behind. -/
def byteEscape? : Text → Option (Bytes × Nat)
  | [] => none
  | c :: rest =>
    if c = 'x' then hexByte? 2 rest
    else if c = 'u' then hexByte? 4 rest
    else if c = 'U' then hexByte? 8 rest
    else if c = 'N' then nameByte? rest
    else if c = '\n' then some ([], 1)
    else if isDigitOf 8 c then
      let digits := c :: (rest.take 2).takeWhile (isDigitOf 8)
      (byte? (digitsValue 8 digits)).map fun b => ([b], digits.length)
    else
      match letterEscape? c with
      | some b => some ([b], 1)
      | none => some (Utf8.encode ['\\', c], 1)

/-- The third pass: letter, octal, hexadecimal and name escapes, by `byteEscape?`. -/
def byteEscapes? (t : Text) : Option Bytes := readEscapes byteEscape? Utf8.encodeChar 0 t

/-- The bytes of the body of a string literal, or nothing if an escape in it is malformed. Three
passes follow one another, `padHexEscapes?`, `nameEscapes?` and `byteEscapes?`, each over what the
one before has left. -/
def unescape? (body : Text) : Option Bytes := do
  byteEscapes? (← nameEscapes? (← padHexEscapes? body))

end TypedOps.Text
