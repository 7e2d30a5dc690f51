import TypedOps.Text.Basic

/-!
# `TypedOps.Layout.Scan`: which lines belong to docstrings

A line belongs to a docstring if it holds a triple quote or stands between two of
them. An odd number of triple quotes on a line opens or closes one; generated code
escapes those in documentation, so each that is left is a delimiter.
-/

set_option autoImplicit false

namespace TypedOps.Layout

/-- The delimiter of a docstring, wherever it stands in a line. -/
def docstringQuotes : Text := Text.fill 3 '"'

/-- A line of code and whether it belongs to a docstring. -/
structure ScannedLine where
  text : Text
  inDocstring : Bool
deriving DecidableEq, Repr

/-- The lines from a place on; `inside` says whether a docstring is open there. -/
def scanFrom (inside : Bool) : List Text → List ScannedLine
  | [] => []
  | line :: rest =>
    let count := Text.count docstringQuotes line
    ⟨line, inside || 0 < count⟩ :: scanFrom (inside != (count % 2 == 1)) rest

/-- The lines of a text, each as a `ScannedLine` with whether it belongs to a docstring. -/
def scan (lines : List Text) : List ScannedLine := scanFrom false lines

end TypedOps.Layout
