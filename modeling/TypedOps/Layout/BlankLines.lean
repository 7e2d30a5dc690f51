import TypedOps.Layout.Scan
import TypedOps.Text.Alphanumeric
import TypedOps.Text.Blank

/-!
# `TypedOps.Layout.BlankLines`: blank lines around definitions

Two blank lines stand before a definition that begins at the margin and one before
any other, unless it comes right behind a class line. Blank lines right behind a
class line are dropped. Lines of docstrings are never touched.
-/

set_option autoImplicit false

namespace TypedOps.Layout

open Text

/-- Whether a line is blank: nothing is left of it when it is stripped. -/
def isBlankLine (line : Text) : Bool := (strip line).isEmpty

/-- Whether white space and a word character come next. -/
def startsName (t : Text) : Bool :=
  match t with
  | [] => false
  | c :: _ => isBlank c && (t.dropWhile isBlank).head?.any isWord

/-- Whether a line opens a class or a function. -/
def isDefinition (line : Text) : Bool :=
  let stripped := strip line
  (afterStart? "class" stripped).any startsName || (afterStart? "def" stripped).any startsName

/-- Whether a line begins like a class. -/
def isClassLine (line : Text) : Bool := startsWith (strip line) "class "

/-- Lines, the last one first, with exactly `count` blank ones in front of what
comes next. Before the first line there are none. -/
def withBlanks (count : Nat) (written : List Text) : List Text :=
  if written.isEmpty then []
  else List.replicate (count - (written.takeWhile isBlankLine).length) [] ++
    written.drop ((written.takeWhile isBlankLine).length - count)

/-- Write lines behind those written, the last one first; `afterClass` says whether
the last of them is a class line. -/
def normalizeFrom (afterClass : Bool) (written : List Text) : List ScannedLine → List Text
  | [] => written.reverse
  | ⟨line, true⟩ :: rest => normalizeFrom false (line :: written) rest
  | ⟨line, false⟩ :: rest =>
    if isDefinition line && !startsWith line " " then
      normalizeFrom (isClassLine line) (line :: withBlanks 2 written) rest
    else if isDefinition line && !afterClass then
      normalizeFrom (isClassLine line) (line :: withBlanks 1 written) rest
    else if afterClass && isBlankLine line then normalizeFrom afterClass written rest
    else normalizeFrom (isClassLine line) (line :: written) rest

/-- The lines with blank lines put right. Those in docstrings stay as they are. -/
def normalizeBlankLines (lines : List Text) : List Text := normalizeFrom false [] (scan lines)

end TypedOps.Layout
