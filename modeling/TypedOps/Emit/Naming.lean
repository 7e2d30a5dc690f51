import TypedOps.Text.LetterCase

/-!
# `TypedOps.Emit.Naming`: names in generated code

Operations are named in camel case, methods in snake case. A method or parameter
name must be no keyword, and a parameter name none of the names that a method body
binds itself; a low line behind the name keeps them apart.
-/

set_option autoImplicit false

namespace TypedOps.Naming

open Text

/-- The keywords of Python, which no name of generated code may be. -/
def keywords : List Text :=
  (["False", "None", "True", "and", "as", "assert", "async", "await", "break", "class", "continue",
    "def", "del", "elif", "else", "except", "finally", "for", "from", "global", "if", "import",
    "in", "is", "lambda", "nonlocal", "not", "or", "pass", "raise", "return", "try", "while",
    "with", "yield"] : List String).map String.toList

/-- Names that the body of a generated method binds. -/
def bodyNames : List Text := ["self", "name", "desc", "op", "status", "control", "i"]

/-- Catalog names that read better under another name. -/
def readableNames : List (Text × Text) :=
  [("out", "output"), ("params", "parameters"), ("ref", "reference"), ("event", "event_")]

/-- Whether a low line goes in front of `c`: an upper-case letter behind a
lower-case one, or before one, starts a word, unless a low line is there
already. -/
def startsWord (before : Option Char) (c : Char) (after : Option Char) : Bool :=
  match before with
  | none => false
  | some b => isUpper c && (isLower b || after.any isLower) && b != '_'

/-- The name in snake case from a place in it on, with the code point before. Each letter is
`lowered`, behind a low line where `startsWord` holds. -/
def snakeCaseFrom (before : Option Char) : Text → Text
  | [] => []
  | c :: rest =>
    (if startsWord before c rest.head? then ['_'] else []) ++ lowered c ++
      snakeCaseFrom (some c) rest

/-- A camel-case name in snake case, by `snakeCaseFrom` its beginning. -/
def snakeCase (name : Text) : Text := snakeCaseFrom none name

/-- The name of the method for an operation: its `snakeCase`, with a low line behind a keyword. -/
def method (operation : Text) : Text :=
  let name := snakeCase operation
  if keywords.contains name then name ++ ['_'] else name

/-- The name of the parameter or variable for an argument or attribute: one of the `readableNames`,
or the name itself, which gets a low line if it is reserved. -/
def parameter (name : Text) : Text :=
  match readableNames.lookup name with
  | some readable => readable
  | none => if keywords.contains name || bodyNames.contains name then name ++ ['_'] else name

end TypedOps.Naming
