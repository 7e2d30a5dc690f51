import TypedOps.Text.Alphanumeric
import TypedOps.Text.Blank
import TypedOps.Text.Escape

/-!
# `TypedOps.Api.Heredoc`: long values in override documents

A line `name: <<WORD` opens a block that the first later line holding only `WORD`
closes. The text format has no such blocks, so each is replaced by one line with
the lines in between as a single quoted string. Lines inside a block never open
another.
-/

set_option autoImplicit false

namespace TypedOps.Api.Heredoc

open Text

/-- A block without an end; the word that should have closed it. -/
structure Unterminated where
  terminator : Text
deriving DecidableEq, Repr

/-- The message of an `Unterminated` block, which names the word that was waited for. -/
def Unterminated.message (fault : Unterminated) : Text :=
  "Multiline value not terminated by " ++ fault.terminator

/-- What an opening line holds before the mark, and the word behind it. Both are taken apart by
`List.span`, from left to right. -/
def opening? (line : Text) : Option (Text × Text) :=
  let (indent, rest) := line.span isBlank
  let (name, rest) := rest.span isWord
  let (gap, rest) := rest.span isBlank
  match name, rest with
  | _ :: _, ':' :: rest =>
    let (space, rest) := rest.span isBlank
    match afterStart? "<<" rest with
    | some rest =>
      let (word, rest) := rest.span isWord
      if !word.isEmpty && rest.all isBlank then
        some (indent ++ name ++ gap ++ [':'] ++ space, word)
      else none
    | none => none
  | _, _ => none

/-- The line that replaces a block: the field with the body as a quoted string, put through
`escape`. -/
def quotedLine (start : Text) (body : List Text) : Text :=
  start ++ ['"'] ++ escape (unlines body) ++ ['"']

/-- What is being read: lines outside blocks, or the lines of a block so far, the last one first. -/
inductive State where
  | outside
  | inside (start terminator : Text) (body : List Text)

/-- The lines with each block replaced by its `quotedLine`. -/
def convertLines : State → List Text → Except Unterminated (List Text)
  | .outside, [] => .ok []
  | .inside _ terminator _, [] => .error ⟨terminator⟩
  | .outside, line :: rest =>
    match opening? line with
    | some (start, terminator) => convertLines (.inside start terminator []) rest
    | none => (convertLines .outside rest).map (line :: ·)
  | .inside start terminator body, line :: rest =>
    if strip line = terminator then
      (convertLines .outside rest).map (quotedLine start body.reverse :: ·)
    else convertLines (.inside start terminator (line :: body)) rest

/-- The text with each block replaced by a quoted string on one line, as `convertLines` does it. -/
def convert (t : Text) : Except Unterminated Text :=
  (convertLines .outside (lines t)).map unlines

/-- The lines of a block that holds a text, closed by the word `END`. -/
def block (key t indent : Text) : List Text :=
  (indent ++ key ++ ": <<END") :: lines t ++ ["END".toList]

end TypedOps.Api.Heredoc
