import TypedOps.Text.Basic

/-!
# `TypedOps.Layout.Header`: the head of a generated file

A license as comment lines and a module docstring stand before the code. The head
holds no time and no path, so the same input always gives the same file.
-/

set_option autoImplicit false

namespace TypedOps.Layout

/-- The license of a file for which none is given. -/
def defaultLicense : Text :=
  "MIT License

Permission is hereby granted, free of charge, to any person obtaining a copy
of this software and associated documentation files (the \"Software\"), to deal
in the Software without restriction, including without limitation the rights
to use, copy, modify, merge, publish, distribute, sublicense, and/or sell
copies of the Software, and to permit persons to whom the Software is
furnished to do so, subject to the following conditions:

The above copyright notice and this permission notice shall be included in all
copies or substantial portions of the Software.

THE SOFTWARE IS PROVIDED \"AS IS\", WITHOUT WARRANTY OF ANY KIND, EXPRESS OR
IMPLIED, INCLUDING BUT NOT LIMITED TO THE WARRANTIES OF MERCHANTABILITY,
FITNESS FOR A PARTICULAR PURPOSE AND NONINFRINGEMENT. IN NO EVENT SHALL THE
AUTHORS OR COPYRIGHT HOLDERS BE LIABLE FOR ANY CLAIM, DAMAGES OR OTHER
LIABILITY, WHETHER IN AN ACTION OF CONTRACT, TORT OR OTHERWISE, ARISING FROM,
OUT OF OR IN CONNECTION WITH THE SOFTWARE OR THE USE OR OTHER DEALINGS IN THE
SOFTWARE.
"

/-- The docstring of a generated module. -/
def moduleDocstring : Text :=
  "\"\"\"Typed wrappers for graph operations.

Generated by tfopgen from the operation catalog and its api definitions.
Do not edit by hand; regenerate instead.
\"\"\"
"

/-- A line as a comment. An empty line becomes the bare sign. -/
def commentLine (line : Text) : Text := if line.isEmpty then ['#'] else '#' :: ' ' :: line

/-- A text as lines with `commentLine`; line feeds at its end are dropped first. -/
def commentBlock (t : Text) : Text :=
  Text.unlines ((Text.lines (Text.trimEnd (· == '\n') t)).map commentLine) ++ ['\n']

/-- Code with its head: the license as a `commentBlock` and the docstring of the module. -/
def withHeader (code : Text) (license : Option Text) : Text :=
  commentBlock (license.getD defaultLicense) ++ '\n' :: moduleDocstring ++ '\n' :: code

end TypedOps.Layout
