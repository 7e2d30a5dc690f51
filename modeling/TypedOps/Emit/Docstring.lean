import TypedOps.Emit.Comment
import TypedOps.Emit.Line
import TypedOps.Emit.Naming
import TypedOps.Operation.Classification
import TypedOps.Operation.Default

/-!
# `TypedOps.Emit.Docstring`: docstrings of generated methods

A docstring holds the summary, the description, a note on deprecation, a field
for each parameter in the order of the signature and a field for the result.
`docstringLines` builds these lines from documentation text; `docstringBlock`
writes them between triple quotes, with backslashes, triple quotes and control
characters escaped.
-/

set_option autoImplicit false

namespace TypedOps

open Naming (parameter)

/-- A field with lines behind its head; lines after the first are indented. -/
def docField (head : Text) : List Text → List Text
  | [] => [head]
  | first :: rest =>
    (if first.isEmpty then head else head ++ ' ' :: first) ::
      rest.map fun line => if line.isEmpty then [] else indentUnit ++ line

/-- The head of the field for a parameter, up to its colon. -/
def paramHead (name : Text) : Text := ":param " ++ name ++ [':']

/-- What the parameter for the operation's name does. -/
def nameNote (operation : Text) : Text :=
  "If specified, the created operation in the graph will be this one, otherwise it will be named '"
    ++ operation ++ "'."

/-- How to get from one output to its operation. -/
def singleFetchNote : Text :=
  "The Operation can be fetched from the resulting Output, " ++
    "by fetching the Operation property from the result."

/-- How to get from several outputs to their operation. -/
def tupleFetchNote : Text :=
  "The Operation can be fetched from any of the Outputs returned in the tuple values, " ++
    "by fetching the Operation property."

/-- What stands above the descriptions of several outputs. -/
def tupleIntro : Text := "Returns a tuple with multiple values, as follows:"

/-- What an operation without outputs returns. -/
def noOutputNote : Text := "Returns the description of the operation"

/-- The text of the note on deprecation, if the operation is deprecated. What the
documentation says goes before what the signature says. -/
def deprecationNote? (op : Operation) (doc : Documentation) : Option Text :=
  let message :=
    if doc.deprecationMessage.isEmpty then op.deprecationExplanation else doc.deprecationMessage
  let note? : Option Text :=
    if op.deprecationVersion != 0 then
      some ("Deprecated at graph version " ++ Text.ofInt op.deprecationVersion ++ ".")
    else if message.isEmpty then none
    else some "Deprecated."
  note?.map fun note => if message.isEmpty then note else note ++ ' ' :: message

/-- The lines on what a method returns, put through `render`. -/
def returnLines (op : Operation) (doc : Documentation) : List Text :=
  match op.outputs with
  | [] => Comment.render noOutputNote
  | [a] => Comment.render (describe doc.outputs a.name) ++ Comment.render singleFetchNote
  | outputs =>
    Comment.render tupleIntro ++
      outputs.flatMap (fun a =>
        Comment.render
          (Text.stripEnd (parameter a.name ++ ": " ++ describe doc.outputs a.name))) ++
      Comment.render tupleFetchNote

/-- The lines on the default of an attribute, none if it has no plain form. The form is
`shownDefault`. -/
def defaultLines (a : Attribute) : Except Value.Fault (List Text) :=
  match a.defaultValue with
  | .nothing => .ok []
  | v =>
    (v.shownDefault a.tag).map fun shown =>
      Comment.render ("Defaults to " ++ Comment.backtick :: shown ++ Comment.backtick :: ".".toList)

/-- The field of an optional attribute, a `docField`: its description, and behind it the lines on
its default. -/
def optionalField (doc : Documentation) (a : Attribute) : Except Value.Fault (List Text) :=
  (defaultLines a).map fun onDefault =>
    docField (paramHead (parameter a.name))
      (Comment.render "Optional argument." ++ Comment.render (describe doc.attributes a.name) ++
        onDefault)

/-- Lines set off by an empty one, if there are any. -/
def paragraph (lines : List Text) : List Text := if lines.isEmpty then [] else [] :: lines

/-- The lines of a method's docstring, not yet escaped: see `escapedDocLine` for that. -/
def docstringLines (op : Operation) (doc : Documentation) : Except Value.Fault (List Text) := do
  let optionalFields ← op.classification.optional.mapM (optionalField doc)
  return Comment.render doc.summary ++
    paragraph (Comment.render doc.description) ++
    paragraph (((deprecationNote? op doc).map Comment.render).getD []) ++
    [[]] ++
    op.inputs.flatMap (fun a =>
      docField (paramHead (parameter a.name)) (Comment.render (describe doc.inputs a.name))) ++
    op.classification.required.flatMap (fun a =>
      docField (paramHead (parameter a.name)) (Comment.render (describe doc.attributes a.name))) ++
    optionalFields.flatten ++
    docField (paramHead "name") (Comment.render (nameNote op.name)) ++
    docField ":return:" (returnLines op doc)

/-- What opens and closes a docstring. -/
def tripleQuote : Text := Text.fill 3 '"'

/-- A control character as its number, anything else as it is. A tab and a line feed may stand in a
docstring, so `escapedDocLine` leaves them. -/
def escapedControl (c : Char) : Text :=
  let n := c.toNat
  if (n < 32 && n != 9 && n != 10) || n = 127 then "\\x" ++ Text.padded 16 2 n else [c]

/-- A line as it is written inside a docstring: backslashes are doubled, quotes are escaped where
three stand together (`tripleQuote`), and control characters become numbers. -/
def escapedDocLine (line : Text) : Text :=
  (Text.replace tripleQuote "\\\"\\\"\\\""
    (Text.replace ['\\'] ['\\', '\\'] line)).flatMap escapedControl

/-- Lines between two of `tripleQuote`, each as an `escapedDocLine`. The first stands behind the
opening ones. -/
def docstringBlock (lines : List Text) : List Line :=
  let written : List Text :=
    match lines with
    | [] => [tripleQuote]
    | first :: rest => (tripleQuote ++ escapedDocLine first) :: rest.map escapedDocLine
  (written ++ [tripleQuote]).map fun t => { text := t }

end TypedOps
