import TypedOps.Api.Heredoc
import TypedOps.Api.Schema

/-!
# `TypedOps.Api.Override`: override documents

`Document.ofText` reads an override document: blocks first become quoted strings,
and the result is read in the text format. `overrideText` writes such a document
for one operation, with every description in a block.
-/

set_option autoImplicit false

namespace TypedOps.Api

/-- The entries of a document, or nothing if it does not parse. Blocks are converted first, by
`Heredoc.convert`. -/
def Document.ofText? (t : Text) : Option (List Entry) :=
  match Heredoc.convert t with
  | .ok plain =>
    match Document.schema.ofText plain with
    | .ok document => some document.entries
    | .error _ => none
  | .error _ => none

/-- The lines that describe named things under a key, each in a block of its own, with the
description as a `Heredoc.block`. -/
def describedLines (key : Text) (descriptions : List NamedDescription) : List Text :=
  descriptions.flatMap fun d =>
    ["  " ++ key ++ " \x7b", "    name: \"" ++ d.name ++ "\""] ++
      Heredoc.block "description" d.description "    " ++ ["  \x7d".toList]

/-- The `Heredoc.block` of a text under a key; an empty text is left out, since it would say no more
than the field's absence. -/
def optionalBlock (key t : Text) : List Text :=
  if t.isEmpty then [] else Heredoc.block key t "  "

/-- The lines of an override document for one operation, which give its whole `Documentation`. -/
def overrideLines (doc : Documentation) : List Text :=
  ["op \x7b".toList, "  graph_op_name: \"" ++ doc.name ++ "\""] ++
    describedLines "in_arg" doc.inputs ++
    describedLines "out_arg" doc.outputs ++
    describedLines "attr" doc.attributes ++
    optionalBlock "summary" doc.summary ++
    optionalBlock "description" doc.description ++
    ["\x7d".toList]

/-- An override document for one operation, made of its `overrideLines`. -/
def overrideText (doc : Documentation) : Text := Text.unlines (overrideLines doc) ++ ['\n']

end TypedOps.Api
