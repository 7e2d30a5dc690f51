import TypedOps.Layout.BlankLines
import TypedOps.Layout.Wrap

/-!
# `TypedOps.Layout.Format`: laying out generated code

Blank lines are put right first, then lines longer than the limit are wrapped.
Docstrings keep their text in both.
-/

set_option autoImplicit false

namespace TypedOps.Layout

/-- The greatest length of a line that is not wrapped. -/
def lineLimit : Nat := 88

/-- The lines that a scanned line becomes. Lines in docstrings and those within `lineLimit` stay. -/
def formatLine (line : ScannedLine) : List Text :=
  if !line.inDocstring && lineLimit < line.text.length then wrapLine line.text else [line.text]

/-- Lines with long ones wrapped by `formatLine`. The blank lines are put right before. -/
def wrapLines (lines : List Text) : List Text := (scan lines).flatMap formatLine

/-- Laid out code: blank lines are put right by `normalizeBlankLines`, then long lines are wrapped.
-/
def format (code : Text) : Text :=
  Text.unlines (wrapLines (normalizeBlankLines (Text.lines code)))

end TypedOps.Layout
