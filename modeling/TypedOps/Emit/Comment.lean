import TypedOps.Text.Blank

/-!
# `TypedOps.Emit.Comment`: documentation text as docstring lines

Catalog text marks code with fences of three backticks and with single ones. A
line that begins with a fence toggles a block and becomes a marker line; a
language name behind the fence is dropped, and a block may open and close on one
line. In other lines backticks become inline markers in turn, beginning anew on
each line. All other angle brackets and ampersands are escaped, so the markers
stay unambiguous. Nothing is ever refused: what is unbalanced stays unbalanced.
-/

set_option autoImplicit false

namespace TypedOps.Comment

open Text

/-- The backtick, which marks code in catalog text. -/
def backtick : Char := '\x60'

/-- What opens and closes a block of code in catalog text: three times the `backtick`. -/
def fence : Text := fill 3 backtick

/-- The line that opens a block of code. -/
def codeOpen : Text := "<code>"

/-- The line that closes a block of code. -/
def codeClose : Text := "</code>"

/-- What opens a span of code. -/
def inlineOpen : Text := "<c>"

/-- What closes a span of code. -/
def inlineClose : Text := "</c>"

/-- Languages that may be named behind a `fence`. -/
def languages : List Text := ["python", "c++"]

/-- A code point that cannot be taken for part of a marker. -/
def escapedChar (c : Char) : Text :=
  if c = '&' then "&amp;" else if c = '<' then "&lt;" else if c = '>' then "&gt;" else [c]

/-- A text without angle brackets or bare ampersands, so no part of it is taken for a marker. Each
code point is put through `escapedChar`. -/
def escaped (t : Text) : Text := t.flatMap escapedChar

/-- The text with backticks replaced by markers in turn; `inside` says whether a
span is open. -/
def markSpans (inside : Bool) : Text → Text
  | [] => []
  | c :: rest =>
    if c = backtick then
      (if inside then inlineClose else inlineOpen) ++ markSpans (!inside) rest
    else c :: markSpans inside rest

/-- The marker line at a fence; `inside` says whether a block is open. -/
def fenceMarker (inside : Bool) : Text := if inside then codeClose else codeOpen

/-- The lines that a line becomes, and whether a block is open behind it. A line without a `fence`
in front has its spans marked. -/
def renderLine (inside : Bool) (raw : Text) : List Text × Bool :=
  let line := escaped (strip raw)
  match afterStart? fence line with
  | none => ([markSpans false line], inside)
  | some rest =>
    if rest.isEmpty || languages.contains rest then ([fenceMarker inside], !inside)
    else if endsWith rest fence then
      ([fenceMarker inside, markSpans false (dropEnd rest fence.length), fenceMarker (!inside)],
        inside)
    else ([fenceMarker inside, markSpans false rest], !inside)

/-- The lines that several lines become, each from the state that `renderLine` leaves. -/
def renderLines (inside : Bool) : List Text → List Text
  | [] => []
  | raw :: rest => (renderLine inside raw).1 ++ renderLines (renderLine inside raw).2 rest

/-- The docstring lines of a text, by `renderLines`, none for the empty text. -/
def render (t : Text) : List Text := if t.isEmpty then [] else renderLines false (lines t)

end TypedOps.Comment
