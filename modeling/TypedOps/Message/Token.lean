import TypedOps.Text.Alphanumeric
import TypedOps.Text.Blank

/-!
# `TypedOps.Message.Token`: tokens of the text format

A text is cut into lines, and no token crosses a line end. White space and
comments separate tokens. Cutting never fails: a string that is not closed on its
line and a character that begins nothing become tokens too, which no rule of the
reader accepts.
-/

set_option autoImplicit false

namespace TypedOps

/-- A token of the text format, with its spelling. -/
inductive Token where
  | word (lexeme : Text)
  | number (lexeme : Text)
  | string (quote : Char) (body : Text) (closed : Bool)
  | symbol (c : Char)
deriving DecidableEq, Repr

namespace Token

/-- Whether a word may begin with the character. -/
def isWordHead (c : Char) : Bool := ('a' ≤ c && c ≤ 'z') || ('A' ≤ c && c ≤ 'Z') || c == '_'

/-- Whether a number may go on with the character, apart from the point. -/
def isWordTail (c : Char) : Bool := isWordHead c || ('0' ≤ c && c ≤ '9') || c == '+' || c == '-'

/-- Whether a number may begin with the character. -/
def isNumberHead (c : Char) : Bool := ('0' ≤ c && c ≤ '9') || c == '+' || c == '-'

/-- Whether a number may go on with the character: the point, or a character with `isWordTail`. -/
def isNumberTail (c : Char) : Bool := isWordTail c || c == '.'

/-- The body of a string up to its quote, whether the quote is there, and the
number of code points taken. A backslash takes the code point behind it. -/
def stringBody (quote : Char) : Text → Text × Bool × Nat
  | [] => ([], false, 0)
  | '\\' :: c :: rest =>
    let (body, closed, used) := stringBody quote rest
    ('\\' :: c :: body, closed, used + 2)
  | c :: rest =>
    if c = quote then ([], true, 1)
    else
      let (body, closed, used) := stringBody quote rest
      (c :: body, closed, used + 1)

/-- The token that begins with `c`, and the number of code points it takes after
`c`. -/
def front (c : Char) (rest : Text) : Token × Nat :=
  if isWordHead c then
    let tail := rest.takeWhile isWordTail
    (.word (c :: tail), tail.length)
  else if isNumberHead c || (c == '.' && rest.head?.any fun d => '0' ≤ d && d ≤ '9') then
    let tail := rest.takeWhile isNumberTail
    (.number (c :: tail), tail.length)
  else if c = '"' || c = '\'' then
    let (body, closed, used) := stringBody c rest
    (.string c body closed, used)
  else (.symbol c, 0)

/-- The tokens of a line behind its next `skip` code points. -/
def ofLineFrom : (skip : Nat) → Text → List Token
  | _, [] => []
  | skip + 1, _ :: rest => ofLineFrom skip rest
  | 0, c :: rest =>
    if Text.isBlank c then ofLineFrom 0 rest
    else if c = '#' then []
    else (front c rest).1 :: ofLineFrom (front c rest).2 rest

/-- The tokens of a line, by `ofLineFrom` its beginning. None goes on in the next line. -/
def ofLine (line : Text) : List Token := ofLineFrom 0 line

/-- The tokens of a text, line by line with `ofLine`. -/
def ofText (t : Text) : List Token := (Text.lines t).flatMap ofLine

/-- Whether the token is the given single character. -/
def isSymbol (t : Token) (c : Char) : Bool := t == .symbol c

/-- The field name that a token can be: anything that begins with a word
character. -/
def fieldName? : Token → Option Text
  | .word lexeme => some lexeme
  | .number lexeme => if lexeme.head?.any Text.isWord then some lexeme else none
  | .symbol c => if Text.isWord c then some [c] else none
  | .string .. => none

/-- Whether the token can stand where an identifier is asked for. -/
def isIdentifier : Token → Bool
  | .word _ => true
  | .symbol c => Text.isWordStart c
  | _ => false

/-- The spelling of a token that is not a string. -/
def scalar? : Token → Option Text
  | .word lexeme | .number lexeme => some lexeme
  | .symbol c => some [c]
  | .string .. => none

end Token

end TypedOps
