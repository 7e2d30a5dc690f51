import TypedOps.Text.Blank

/-!
# `TypedOps.Layout.Arguments`: cutting a list of arguments

A comma ends an argument unless it stands inside brackets or between quotes.
Brackets are counted without regard to their kind and may be unbalanced; a quote
ends at the next quote of its kind. White space around an argument and empty
arguments are dropped.
-/

set_option autoImplicit false

namespace TypedOps.Layout

/-- Where in a list of arguments a code point stands: between which quotes, if
any, and inside how many brackets. -/
structure ArgState where
  quote? : Option Char := none
  depth : Int := 0
deriving DecidableEq, Repr

/-- The state behind a code point. Brackets count only outside quotes, and a quote is ended by the
next one of its kind. -/
def ArgState.next (s : ArgState) (c : Char) : ArgState :=
  match s.quote? with
  | some quote => if c = quote then { s with quote? := none } else s
  | none =>
    if c = '"' || c = '\'' then { s with quote? := some c }
    else if c = '(' || c = '[' || c = '\x7b' then { s with depth := s.depth + 1 }
    else if c = ')' || c = ']' || c = '\x7d' then { s with depth := s.depth - 1 }
    else s

/-- Whether a code point ends an argument: a comma outside quotes and brackets. -/
def ArgState.endsAt (s : ArgState) (c : Char) : Bool :=
  s.quote?.isNone && s.depth == 0 && c == ','

/-- The pieces between the commas that end arguments. -/
def argumentPieces (s : ArgState) : Text → List Text
  | [] => [[]]
  | c :: rest =>
    if s.endsAt c then [] :: argumentPieces s rest
    else
      match argumentPieces (s.next c) rest with
      | [] => [[c]]
      | piece :: pieces => (c :: piece) :: pieces

/-- The arguments of a list, stripped of white space. Empty ones are dropped. -/
def splitArguments (t : Text) : List Text :=
  ((argumentPieces {} t).map Text.strip).filter fun piece => !piece.isEmpty

end TypedOps.Layout
