import TypedOps.Message.Token
import TypedOps.Number.Literal
import TypedOps.Number.MachineInt
import TypedOps.Text.Escape

/-!
# `TypedOps.Message.Reader`: reading the text format

The pieces of the text format that need no schema: numbers, strings, separators,
blocks and lists, and the rules by which the content of an unknown field is
passed over. An unknown field without a colon has to hold a block; with a colon
it may hold a block, a list or a scalar.

Reading goes from the left, and the first fault ends it.
-/

set_option autoImplicit false

namespace TypedOps

/-- Why a text is refused. -/
inductive ReadFault where
  /-- The text does not follow the format. -/
  | malformed
  /-- An element number is no 32-bit integer. -/
  | outOfRange
deriving DecidableEq, Repr

/-- A reader takes `Token`s from the front and leaves the rest. -/
abbrev Reader (α : Type) := List Token → Except ReadFault (α × List Token)

namespace Reader

/-- Take the given symbol, or refuse anything else. -/
def expect (c : Char) : List Token → Except ReadFault (List Token)
  | [] => .error .malformed
  | t :: rest => if t.isSymbol c then .ok rest else .error .malformed

/-- Take the given symbol if it is there, and nothing otherwise. -/
def pass (c : Char) : List Token → List Token
  | [] => []
  | t :: rest => if t.isSymbol c then rest else t :: rest

/-- Whether the given symbol comes next. -/
def sees (c : Char) (tokens : List Token) : Bool := tokens.head?.any (·.isSymbol c)

/-- Take the comma or semicolon that may stand behind a field, one at most. -/
def passSeparator (tokens : List Token) : List Token :=
  if sees ',' tokens then pass ',' tokens else pass ';' tokens

/-- Take the opening of a block; the answer is the symbol that has to close it. -/
def openBlock (tokens : List Token) : Except ReadFault (Char × List Token) :=
  if sees '<' tokens then .ok ('>', pass '<' tokens)
  else (expect '{' tokens).map fun rest => ('}', rest)

/-- The content of one string token, by `Text.unescape?`. -/
def stringContent? : Token → Option Bytes
  | .string _ body true => Text.unescape? body
  | _ => none

/-- The strings that follow, each by `stringContent?`, joined. -/
def moreStrings : Reader Bytes
  | [] => .ok ([], [])
  | t :: rest =>
    match t with
    | .string .. =>
      match stringContent? t with
      | none => .error .malformed
      | some content => (moreStrings rest).map fun (more, rest) => (content ++ more, rest)
    | _ => .ok ([], t :: rest)

/-- One string or several adjacent ones, joined with `moreStrings`. -/
def bytes : Reader Bytes
  | t :: rest =>
    match stringContent? t with
    | none => .error .malformed
    | some content => (moreStrings rest).map fun (more, rest) => (content ++ more, rest)
  | [] => .error .malformed

/-- A string whose bytes are a text, that is, UTF-8. -/
def text : Reader Text := fun tokens => do
  let (content, rest) ← bytes tokens
  match Utf8.decode? content with
  | some t => return (t, rest)
  | none => throw .malformed

/-- A token that is not a string, read by its spelling. -/
def spelling {α : Type} (value? : Text → Option α) : Reader α
  | t :: rest =>
    match t.scalar?.bind value? with
    | some v => .ok (v, rest)
    | none => .error .malformed
  | [] => .error .malformed

/-- An integer; digits behind a leading zero are octal. -/
def integer? (t : Text) : Option Int :=
  let (negative, rest) :=
    match t with
    | '-' :: rest => (true, rest)
    | _ => (false, t)
  match rest with
  | '0' :: d :: digits =>
    if (d :: digits).all (Text.isDigitOf 10) then
      (Text.wholeDigits? 8 (d :: digits)).map fun n => if negative then -(n : Int) else n
    else Integer.read? t
  | _ => Integer.read? t

/-- An `integer?` that passes the test `fits`. -/
def integerThat? (fits : Int → Bool) (t : Text) : Option Int := (integer? t).filter fits

/-- Whether digits follow a leading zero. -/
def looksOctal : Text → Bool
  | '-' :: '0' :: d :: _ => Text.isDigitOf 10 d
  | '0' :: d :: _ => Text.isDigitOf 10 d
  | _ => false

/-- Infinity, or no number, with an `f` behind the word. -/
def markedWord? (t : Text) : Option Floating :=
  match t.flatMap Text.lowered with
  | '-' :: w => if w = "inff" || w = "infinityf" then some (.infinite true) else none
  | w =>
    if w = "inff" || w = "infinityf" then some (.infinite false)
    else if w = "nanf" then some .nan
    else none

/-- A double. Nothing that looks octal is one; any number of `f` may stand at the
end. -/
def double? (t : Text) : Option Floating :=
  if looksOctal t then none
  else
    (Floating.read? t).or <| (markedWord? t).or <|
      Floating.read? (Text.trimEnd (fun c => c == 'f' || c == 'F') t)

/-- A truth value, by the words and digits that stand for one. -/
def bool? (t : Text) : Option Bool :=
  if t = "true" || t = "t" || t = "1" || t = "True" then some true
  else if t = "false" || t = "f" || t = "0" || t = "False" then some false
  else none

/-! ## Passing over unknown fields -/

/-- Pass over a scalar of an unknown field: strings, an identifier, an integer of
sixty-four bits, signed or not, or a double. -/
def skipScalar : List Token → Except ReadFault (List Token)
  | [] => .error .malformed
  | t :: rest =>
    match t with
    | .string .. => (bytes (t :: rest)).map (·.2)
    | _ =>
      let fits (i : Int) := MachineInt.fits 64 i || MachineInt.fitsUnsigned 64 i
      let number (s : Text) := (integerThat? fits s).isSome || (double? s).isSome
      if t.isIdentifier || t.scalar?.any number then .ok rest else .error .malformed

/-- Pass over identifiers with points between them; the answer has their
number. -/
def skipDotted : List Token → Except ReadFault (Nat × List Token)
  | [] => .error .malformed
  | [t] => if t.isIdentifier then .ok (1, []) else .error .malformed
  | t :: dot :: rest =>
    if !t.isIdentifier then .error .malformed
    else if dot.isSymbol '.' then (skipDotted rest).map fun (n, rest) => (n + 1, rest)
    else .ok (1, dot :: rest)

/-- Pass over the name of an unknown field. In brackets it is a dotted name; one
of three parts may have a slash and another dotted name behind it. -/
def skipName : List Token → Except ReadFault (List Token)
  | [] => .error .malformed
  | t :: rest =>
    if t.isSymbol '[' then do
      let (n, rest) ← skipDotted rest
      if n = 3 && sees '/' rest then
        let (_, rest) ← skipDotted (pass '/' rest)
        expect ']' rest
      else expect ']' rest
    else if t.fieldName?.isSome then .ok rest
    else .error .malformed

mutual

/-- Pass over what stands behind the name of an unknown field. -/
def skipContent : (fuel : Nat) → List Token → Except ReadFault (List Token)
  | 0, _ => .error .malformed
  | fuel + 1, tokens =>
    if sees ':' tokens then
      let rest := pass ':' tokens
      if sees '{' rest || sees '<' rest then skipBlock fuel rest
      else if sees '[' rest then
        let rest := pass '[' rest
        if sees ']' rest then .ok (pass ']' rest) else skipItems fuel rest
      else skipScalar rest
    else skipBlock fuel tokens

/-- Pass over a block, from its opening (`openBlock`) to its end. -/
def skipBlock : (fuel : Nat) → List Token → Except ReadFault (List Token)
  | 0, _ => .error .malformed
  | fuel + 1, tokens => do
    let (closer, rest) ← openBlock tokens
    skipFields closer fuel rest

/-- Pass over the fields of a block and its end. -/
def skipFields (closer : Char) : (fuel : Nat) → List Token → Except ReadFault (List Token)
  | 0, _ => .error .malformed
  | fuel + 1, tokens =>
    if sees '}' tokens || sees '>' tokens then expect closer tokens
    else do
      let rest ← skipName tokens
      let rest ← skipContent fuel rest
      skipFields closer fuel (passSeparator rest)

/-- Pass over the items of a list and its end. -/
def skipItems : (fuel : Nat) → List Token → Except ReadFault (List Token)
  | 0, _ => .error .malformed
  | fuel + 1, tokens => do
    let rest ←
      if sees '<' tokens || sees '{' tokens then skipBlock fuel tokens else skipScalar tokens
    if sees ']' rest then return pass ']' rest
    else skipItems fuel (← expect ',' rest)

end

/-- Pass over what stands behind the name of an unknown field, by `skipContent`. A token is worth
three steps at most. -/
def skipUnknown (tokens : List Token) : Except ReadFault (List Token) :=
  skipContent (3 * tokens.length + 3) tokens

/-! ## Lists and blocks of known fields -/

/-- Read items into `m` up to the end of a list. -/
def itemsFrom {M : Type} (item : M → Reader M) : (fuel : Nat) → M → Reader M
  | 0, _, _ => .error .malformed
  | fuel + 1, m, tokens => do
    let (m, rest) ← item m tokens
    if sees ']' rest then return (m, pass ']' rest)
    else itemsFrom item fuel m (← expect ',' rest)

/-- Read one `item`, or a list of them in brackets. -/
def oneOrList {M : Type} (item : M → Reader M) (m : M) : Reader M := fun tokens =>
  if sees '[' tokens then
    let rest := pass '[' tokens
    if sees ']' rest then .ok (m, pass ']' rest)
    else itemsFrom item (rest.length + 1) m rest
  else item m tokens

/-- Read fields into `m` up to the symbol that closes the block, or up to the end
of the text if there is none. A field takes at least a token. -/
def fieldsFrom {M : Type} (field? : Text → Option (M → Reader M)) (closer : Option Char) :
    (fuel : Nat) → M → Reader M
  | 0, _, _ => .error .malformed
  | _ + 1, m, [] => if closer.isNone then .ok (m, []) else .error .malformed
  | fuel + 1, m, t :: rest =>
    if closer.any t.isSymbol then .ok (m, rest)
    else
      match t.fieldName? with
      | none => .error .malformed
      | some name => do
        let (m, rest) ←
          match field? name with
          | some read => read m rest
          | none => (skipUnknown rest).map fun rest => (m, rest)
        fieldsFrom field? closer fuel m (passSeparator rest)

/-- Read fields into `m`; see `fieldsFrom`. -/
def fields {M : Type} (field? : Text → Option (M → Reader M)) (closer : Option Char) (m : M) :
    Reader M := fun tokens => fieldsFrom field? closer (tokens.length + 1) m tokens

end Reader

end TypedOps
