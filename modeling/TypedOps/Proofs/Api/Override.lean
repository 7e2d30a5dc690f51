import TypedOps.Proofs.Api.Heredoc
import TypedOps.Proofs.Api.Merge
import TypedOps.Proofs.Message.Reads

/-!
# `TypedOps.Proofs.Api.Override`: a written override document says what it was written from

`overrideText` writes a document with descriptions in blocks. Reading it goes through four
stages, each with its own theory: blocks become quoted lines, lines become tokens, strings
lose their escapes, and fields make up an entry. `Conveys` joins the first two: lines that
convey some tokens do so whatever stands around them, so a document is taken apart into
its lines once (`conveys_overrideLines`). `Reads` joins the last two.

* `ofText?_overrideText`: the document holds one entry, with the given texts and nothing
  else.
* `put?_overrideText`: a store without an entry for the operation takes the document and
  grows by just this entry.

Names go between quotes as they are, and a text goes into a block as it is. So a name must
be `Bare`, and no line of a text may look like the end of its block (`FitsBlock`).
-/

set_option autoImplicit false

namespace TypedOps.Api

open Text
open Heredoc (Converts converts_nil converts_line converts_block block)
open Token (isFieldName Carried)

/-- A name that can stand between quotes as it is: no quote, no backslash and no line feed is in it,
so that nothing needs `escape`. -/
def Bare (name : Text) : Prop := '"' ∉ name ∧ '\\' ∉ name ∧ OneLine name

/-- A text that can stand in a block: none of its lines looks like the closing line `END` once white
space is taken off. -/
def FitsBlock (t : Text) : Prop := ∀ l ∈ lines t, strip l ≠ "END".toList

/-- Descriptions that can be written under the names of what they describe: each name is `Bare`, and
each text is `FitsBlock`. -/
def WritableAll (descriptions : List NamedDescription) : Prop :=
  ∀ d ∈ descriptions, Bare d.name ∧ FitsBlock d.description

/-- Documentation that can be written as an override document. It is what `overrideText` needs to be
read back, and `put?_overrideText` asks for nothing else. -/
structure Writable (doc : Documentation) : Prop where
  name : Bare doc.name
  summary : FitsBlock doc.summary
  description : FitsBlock doc.description
  inputs : WritableAll doc.inputs
  outputs : WritableAll doc.outputs
  attributes : WritableAll doc.attributes

instance (name : Text) : Decidable (Bare name) :=
  inferInstanceAs (Decidable ('"' ∉ name ∧ '\\' ∉ name ∧ OneLine name))

instance (t : Text) : Decidable (FitsBlock t) :=
  inferInstanceAs (Decidable (∀ l ∈ lines t, strip l ≠ "END".toList))

instance (descriptions : List NamedDescription) : Decidable (WritableAll descriptions) :=
  inferInstanceAs (Decidable (∀ d ∈ descriptions, Bare d.name ∧ FitsBlock d.description))

/-- The `Entry` with the texts of a documentation and nothing else: no endpoints, no order of
arguments and no deprecation. -/
def Entry.ofDocumentation (doc : Documentation) : Entry where
  operationName := doc.name
  summary := doc.summary
  description := doc.description
  inputs := doc.inputs.map fun d => { name := d.name, description := d.description }
  outputs := doc.outputs.map fun d => { name := d.name, description := d.description }
  attributes := doc.attributes.map fun d => { name := d.name, description := d.description }

/-! ### From lines to tokens -/

/-- Lines that amount to some tokens once `convert` has made their blocks quoted strings, whatever
stands behind them. Like `Converts` it composes over groups of lines. -/
structure Conveys (ls : List Text) (tokens : List Token) : Prop where
  oneLine : ∀ l ∈ ls, OneLine l
  converts : ∃ plain, Converts ls plain ∧ (∀ l ∈ plain, OneLine l) ∧
    plain.flatMap Token.ofLine = tokens

/-- No lines `Conveys` no tokens, which is also what an optional part amounts to when it is left
out. -/
theorem conveys_nil : Conveys [] [] :=
  ⟨by simp, [], converts_nil, by simp, rfl⟩

/-- Lines convey their tokens one after the other, so `Conveys` passes from two groups to both in a
row. -/
theorem Conveys.append {ls ls' : List Text} {tokens tokens' : List Token}
    (h : Conveys ls tokens) (h' : Conveys ls' tokens') :
    Conveys (ls ++ ls') (tokens ++ tokens') := by
  obtain ⟨plain, hconverts, hplain, rfl⟩ := h.converts
  obtain ⟨plain', hconverts', hplain', rfl⟩ := h'.converts
  exact ⟨List.forall_mem_append.mpr ⟨h.oneLine, h'.oneLine⟩, plain ++ plain',
    hconverts.append hconverts', List.forall_mem_append.mpr ⟨hplain, hplain'⟩,
    List.flatMap_append⟩

/-- If each group of lines `Conveys` its tokens, then the groups in a row convey the tokens in a
row. -/
theorem conveys_flatMap {α : Type} {f : α → List Text} {g : α → List Token} {xs : List α}
    (h : ∀ x ∈ xs, Conveys (f x) (g x)) : Conveys (xs.flatMap f) (xs.flatMap g) :=
  relates_flatMap conveys_nil Conveys.append h

/-- An escaped text stands on one line, since `escape` writes line feeds as two code points. -/
theorem oneLine_escape (t : Text) : OneLine (escape t) := by
  intro hmem
  obtain ⟨c, -, hc⟩ := List.mem_flatMap.mp hmem
  rcases escapedChar_cases c with ⟨hfree, hbare⟩ | ⟨d, tail, hwritten, hd, htail, -⟩
  · rw [hbare, List.mem_singleton] at hc
    subst hc
    exact absurd hfree (by decide)
  · rw [hwritten, List.mem_cons, List.mem_cons] at hc
    rcases hc with hc | rfl | hc
    · exact absurd hc (by decide)
    · exact absurd hd (by decide)
    · exact absurd (htail _ hc) (by decide)

/-- The name of a field stands on one line: it is a word by `isWord_fieldName`. -/
theorem oneLine_fieldName {key : Text} (hkey : isFieldName key = true) : OneLine key := by
  intro hmem
  cases key with
  | nil => cases hkey
  | cons c tail =>
    simp only [isFieldName, Bool.and_eq_true, List.all_eq_true] at hkey
    exact absurd (hkey.2 _ hmem).1.2 (by decide)

/-- Lines that `Converts` makes into one line convey the tokens of that line, `Token.ofLine`. -/
theorem conveys_of_converts {ls : List Text} {line : Text} (hone : ∀ l ∈ ls, OneLine l)
    (hline : OneLine line) (h : Converts ls [line]) : Conveys ls (Token.ofLine line) :=
  ⟨hone, [line], h, by simpa using hline, by simp⟩

section
variable (indent key : Text) (hindent : indent.all isBlank = true) (hone : OneLine indent)
  (hkey : isFieldName key = true)
include hindent hone hkey

/-- A field with a `Bare` name in quotes conveys the name as a string token under its key. -/
theorem conveys_name {name : Text} (h : Bare name) :
    Conveys [indent ++ key ++ ": \"" ++ name ++ "\""] (textTokens key name) := by
  obtain ⟨hquote, hback, hname⟩ := h
  have hline : OneLine (indent ++ key ++ ": \"" ++ name ++ "\"") := by
    simp only [oneLine_append]
    exact ⟨⟨⟨⟨hone, oneLine_fieldName hkey⟩, by decide⟩, hname⟩, by decide⟩
  rw [textTokens, ← Token.ofLine_field hindent hkey (Token.carried_of_not_mem hquote hback)]
  exact conveys_of_converts (by simpa using hline) hline
    (converts_line (Heredoc.opening?_field hindent hkey name))

/-- A field with a block behind it conveys the escaped text, as a quoted string would
(`converts_block`). -/
theorem conveys_block {t : Text} (h : FitsBlock t) :
    Conveys (block key t indent) (textTokens key (escape t)) := by
  -- The text has lines of its own, but escaped it stands on one.
  have hfield : OneLine (indent ++ key ++ ": \"" ++ escape t ++ "\"") := by
    simp only [oneLine_append]
    exact ⟨⟨⟨⟨hone, oneLine_fieldName hkey⟩, by decide⟩, oneLine_escape t⟩, by decide⟩
  have hlines : ∀ l ∈ block key t indent, OneLine l := by
    intro l hl
    rcases List.mem_cons.mp hl with rfl | hl
    · simp only [oneLine_append]
      exact ⟨⟨hone, oneLine_fieldName hkey⟩, by decide⟩
    rcases List.mem_append.mp hl with hl | hl
    · exact oneLine_of_mem_lines hl
    · rw [List.mem_singleton.mp hl]
      decide
  rw [textTokens, ← Token.ofLine_field hindent hkey (Token.carried_escape t)]
  exact conveys_of_converts hlines hfield (converts_block hindent hkey h)

/-- A field that opens a block of fields `Conveys` its key and the opening brace. -/
theorem conveys_opening : Conveys [indent ++ key ++ " \x7b"] [.word key, .symbol '\x7b'] := by
  have hline : OneLine (indent ++ key ++ " \x7b") := by
    simp only [oneLine_append]
    exact ⟨⟨hone, oneLine_fieldName hkey⟩, by decide⟩
  rw [← Token.ofLine_opening hindent hkey]
  exact conveys_of_converts (by simpa using hline) hline
    (converts_line (Heredoc.opening?_opening hindent hkey))

end

/-- The line that closes a block of fields `Conveys` the closing brace, at any indentation. -/
theorem conveys_closing (indent : Text) (hindent : indent.all isBlank = true)
    (hone : OneLine indent) : Conveys [indent ++ "\x7d"] [.symbol '\x7d'] := by
  have hline : OneLine (indent ++ "\x7d") := oneLine_append.mpr ⟨hone, by decide⟩
  have hopening : Heredoc.opening? (indent ++ "\x7d") = none := by
    have hspan : (indent ++ ['\x7d']).span isBlank = (indent, ['\x7d']) :=
      span_append (List.all_eq_true.mp hindent) (by decide)
    show Heredoc.opening? (indent ++ ['\x7d']) = none
    rw [Heredoc.opening?, hspan]
    rfl
  have htokens : Token.ofLine (indent ++ "\x7d") = [.symbol '\x7d'] := Token.ofLine_blank hindent _
  rw [← htokens]
  exact conveys_of_converts (by simpa using hline) hline (converts_line hopening)

/-! ### The tokens of a document -/

/-- The tokens inside the block of a described thing: its name and its description as `escape`
writes it, both of which are always there. -/
def descriptionTokens (d : NamedDescription) : List Token :=
  textTokens "name" d.name ++ textTokens "description" (escape d.description)

/-- The tokens of a text under a key. An empty text is left out, as `optionalBlock` does. -/
def optionalTokens (key t : Text) : List Token :=
  if t.isEmpty then [] else textTokens key (escape t)

/-- The tokens inside the block of an operation, in the order in which `overrideLines` writes its
parts. -/
def entryTokens (doc : Documentation) : List Token :=
  textTokens "graph_op_name" doc.name ++
    doc.inputs.flatMap (fun d => blockTokens "in_arg" (descriptionTokens d)) ++
    doc.outputs.flatMap (fun d => blockTokens "out_arg" (descriptionTokens d)) ++
    doc.attributes.flatMap (fun d => blockTokens "attr" (descriptionTokens d)) ++
    optionalTokens "summary" doc.summary ++ optionalTokens "description" doc.description

/-- The lines of `describedLines` convey one block for each described thing, with
`descriptionTokens` inside. -/
theorem conveys_describedLines (key : Text) (hkey : isFieldName key = true)
    {descriptions : List NamedDescription} (h : WritableAll descriptions) :
    Conveys (describedLines key descriptions)
      (descriptions.flatMap fun d => blockTokens key (descriptionTokens d)) := by
  refine conveys_flatMap fun d hd => ?_
  -- The four pieces of a block convey their tokens one after the other.
  obtain ⟨hname, hdescription⟩ := h d hd
  have hopening : Conveys ["  " ++ key ++ " \x7b"] [.word key, .symbol '\x7b'] :=
    conveys_opening _ _ (by decide) (by decide) hkey
  have hnamed : Conveys ["    name: \"" ++ d.name ++ "\""] (textTokens "name" d.name) :=
    conveys_name "    " "name" (by decide) (by decide) (by decide) hname
  have hblock : Conveys (block "description" d.description "    ")
      (textTokens "description" (escape d.description)) :=
    conveys_block _ _ (by decide) (by decide) (by decide) hdescription
  have hclosing : Conveys ["  \x7d".toList] [.symbol '\x7d'] :=
    conveys_closing "  " (by decide) (by decide)
  have hlines := (hopening.append (hnamed.append hblock)).append hclosing
  simpa [blockTokens, descriptionTokens] using hlines

/-- The lines of `optionalBlock` convey `optionalTokens`, whether the text is empty or not. -/
theorem conveys_optionalBlock (key : Text) (hkey : isFieldName key = true) {t : Text}
    (h : FitsBlock t) : Conveys (optionalBlock key t) (optionalTokens key t) := by
  unfold optionalBlock optionalTokens
  split
  · exact conveys_nil
  · exact conveys_block _ _ (by decide) (by decide) hkey h

/-- The lines of an override document convey one block `op` with `entryTokens` inside. This is all
that the writer contributes; what follows is about the reader. -/
theorem conveys_overrideLines {doc : Documentation} (h : Writable doc) :
    Conveys (overrideLines doc) (blockTokens "op" (entryTokens doc)) := by
  have hopening : Conveys ["op \x7b".toList] [.word "op", .symbol '\x7b'] :=
    conveys_opening [] "op" (by decide) (by decide) (by decide)
  have hname : Conveys ["  graph_op_name: \"" ++ doc.name ++ "\""]
      (textTokens "graph_op_name" doc.name) :=
    conveys_name "  " "graph_op_name" (by decide) (by decide) (by decide) h.name
  have hinputs := conveys_describedLines "in_arg" (by decide) h.inputs
  have houtputs := conveys_describedLines "out_arg" (by decide) h.outputs
  have hattributes := conveys_describedLines "attr" (by decide) h.attributes
  have hsummary := conveys_optionalBlock "summary" (by decide) h.summary
  have hdescription := conveys_optionalBlock "description" (by decide) h.description
  have hclosing : Conveys ["\x7d".toList] [.symbol '\x7d'] :=
    conveys_closing [] (by decide) (by decide)
  have hlines := (hopening.append (((((hname.append hinputs).append houtputs).append
    hattributes).append hsummary).append hdescription)).append hclosing
  simpa [overrideLines, entryTokens, blockTokens] using hlines

/-! ### From tokens to the entry -/

/-- The tokens of an optional text are read by a `Field.scalar` into a message where this part is
still empty. An absent one leaves it empty. -/
theorem reads_optionalTokens {M : Type} (schema : Schema M) (m : M) (key t : Text)
    {number : Nat} {get : M → Text} {set : M → Text → M}
    (hfield : schema.reader? key = some (Field.scalar number key .text get set).read)
    (hpart : IsPart get set) (hfresh : get m = []) :
    Reads schema m (optionalTokens key t) (set m t) := by
  unfold optionalTokens
  split
  · next hempty =>
    -- A text that is left out is empty, and so is the scalar.
    have hkept := hpart.set_get m
    rw [hfresh] at hkept
    rw [List.isEmpty_iff.mp hempty, hkept]
    exact reads_nil
  · exact reads_textTokens schema m key hfield hfresh (unescape?_escape t)

/-- A name and a description are read into a message that has neither, for any `Schema` with two
such fields: both kinds of arguments and attributes have them. -/
theorem reads_descriptionTokens {M : Type} (schema : Schema M) (m : M) {i j : Nat}
    {getName getDescription : M → Text} {setName setDescription : M → Text → M}
    (hnameField : schema.reader? "name" =
      some (Field.scalar i "name" .text getName setName).read)
    (hdescriptionField : schema.reader? "description" =
      some (Field.scalar j "description" .text getDescription setDescription).read)
    (hname : getName m = []) (hdescription : ∀ t, getDescription (setName m t) = [])
    {d : NamedDescription} (h : Bare d.name) :
    Reads schema m (descriptionTokens d) (setDescription (setName m d.name) d.description) :=
  (reads_textTokens schema m "name" hnameField hname (unescape?_of_not_mem h.2.1)).append
    (reads_textTokens schema _ "description" hdescriptionField (hdescription d.name)
      (unescape?_escape d.description))

/-- The description of an argument is read by `ArgumentEntry.schema`: an instance of
`reads_descriptionTokens`. -/
theorem reads_argument {d : NamedDescription} (h : Bare d.name) :
    Reads ArgumentEntry.schema ArgumentEntry.schema.empty (descriptionTokens d)
      { name := d.name, description := d.description } := by
  have hread := reads_descriptionTokens ArgumentEntry.schema {} rfl rfl rfl (fun _ => rfl) h
  exact hread

/-- The description of an attribute is read by `AttributeEntry.schema` in the same way as that of an
argument. -/
theorem reads_attribute {d : NamedDescription} (h : Bare d.name) :
    Reads AttributeEntry.schema AttributeEntry.schema.empty (descriptionTokens d)
      { name := d.name, description := d.description } := by
  have hread := reads_descriptionTokens AttributeEntry.schema {} rfl rfl rfl (fun _ => rfl) h
  exact hread

/-- What stands in the block of an operation is read as `Entry.ofDocumentation`, part by part in the
order of `entryTokens`. -/
theorem reads_entryTokens {doc : Documentation} (h : Writable doc) :
    Reads Entry.schema Entry.schema.empty (entryTokens doc) (Entry.ofDocumentation doc) := by
  -- The entry grows field by field in the order in which the fields are written.
  let named : Entry := { operationName := doc.name }
  let withInputs : Entry := { named with inputs := (Entry.ofDocumentation doc).inputs }
  let withOutputs : Entry := { withInputs with outputs := (Entry.ofDocumentation doc).outputs }
  let withAttributes : Entry :=
    { withOutputs with attributes := (Entry.ofDocumentation doc).attributes }
  let withSummary : Entry := { withAttributes with summary := doc.summary }
  have hname := reads_textTokens Entry.schema {} "graph_op_name" rfl rfl
    (unescape?_of_not_mem h.name.2.1)
  have hinputs := reads_flatMap_blockTokens Entry.schema named "in_arg" rfl {}
    fun d hd => reads_argument (h.inputs d hd).1
  have houtputs := reads_flatMap_blockTokens Entry.schema withInputs "out_arg" rfl {}
    fun d hd => reads_argument (h.outputs d hd).1
  have hattributes := reads_flatMap_blockTokens Entry.schema withOutputs "attr" rfl {}
    fun d hd => reads_attribute (h.attributes d hd).1
  have hsummary := reads_optionalTokens Entry.schema withAttributes "summary" doc.summary rfl {}
    rfl
  have hdescription := reads_optionalTokens Entry.schema withSummary "description"
    doc.description rfl {} rfl
  exact ((((hname.append hinputs).append houtputs).append hattributes).append hsummary).append
    hdescription

/-- Lines that convey some tokens make up a text that `convert` accepts, and whose tokens these are.
-/
theorem Conveys.ofText {ls : List Text} {tokens : List Token} (h : Conveys ls tokens)
    (hne : ls ≠ []) :
    ∃ plain, Heredoc.convert (unlines ls ++ ['\n']) = .ok plain ∧
      Token.ofText plain = tokens := by
  obtain ⟨plain, hconverts, hplain, htokens⟩ := h.converts
  -- The last line feed leaves an empty line, which opens no block and has no tokens.
  have hlast : Heredoc.convertLines .outside [[]] = .ok [[]] := rfl
  have hlines : lines (unlines (plain ++ [[]])) = plain ++ [[]] :=
    lines_unlines (by simp) (List.forall_mem_append.mpr ⟨hplain, by simp [OneLine]⟩)
  refine ⟨unlines (plain ++ [[]]), ?_, ?_⟩
  · rw [Heredoc.convert, lines_unlines_linefeed hne h.oneLine, hconverts, hlast]
    rfl
  · rw [Token.ofText, hlines, List.flatMap_append, htokens]
    exact List.append_nil tokens

/-- A written document is read back by `Document.ofText?` as one entry, which has the texts it was
written from. -/
theorem ofText?_overrideText {doc : Documentation} (h : Writable doc) :
    Document.ofText? (overrideText doc) = some [Entry.ofDocumentation doc] := by
  obtain ⟨plain, hconvert, htokens⟩ := (conveys_overrideLines h).ofText (by simp [overrideLines])
  have hread := reads_blockTokens Document.schema {} "op" rfl (reads_entryTokens h)
  have hdocument : Document.schema.ofText plain =
      .ok { entries := [Entry.ofDocumentation doc] } := hread.ofText htokens
  rw [Document.ofText?, overrideText, hconvert]
  simp only [hdocument]

/-! ### Into a store -/

/-- Merged into an empty entry of the same name, `Entry.ofDocumentation` stays as it is: every named
text is new there. -/
theorem merge_ofDocumentation (doc : Documentation) :
    Entry.merge { operationName := doc.name } (Entry.ofDocumentation doc) =
      Entry.ofDocumentation doc := by
  simp [Entry.merge, Entry.ofDocumentation, mergedDescription, overwrite_default,
    mergeNamed_nil]

/-- An operation without an entry gets one behind all others, so `Store.insert` appends. -/
theorem Store.insert_of_get?_eq_none {store : Store} {name : Text} (h : store.get? name = none)
    (entry : Entry) : store.insert name entry = ⟨store.entries ++ [(name, entry)]⟩ := by
  obtain ⟨entries⟩ := store
  show Store.mk (Store.insert.go name entry entries) = ⟨entries ++ [(name, entry)]⟩
  congr 1
  -- Walking past every entry, `insert` comes to the end and appends.
  induction entries with
  | nil => rfl
  | cons first rest ih =>
    obtain ⟨n, e⟩ := first
    simp only [Store.get?, List.lookup_cons] at h ih
    by_cases hn : name = n
    · -- The first entry would be the one of the operation.
      subst hn
      simp at h
    · rw [beq_false_of_ne hn] at h
      rw [Store.insert.go, beq_false_of_ne (Ne.symm hn), if_neg Bool.false_ne_true, ih h,
        List.cons_append]

/-- A store without an entry for an operation takes the `overrideText` written for it. It grows by
one entry, which has the given names and texts in order and nothing else, and all other entries stay
as they were. -/
theorem put?_overrideText (store : Store) (doc : Documentation)
    (hnew : store.get? doc.name = none) (h : Writable doc) :
    store.put? (overrideText doc) =
      some ⟨store.entries ++ [(doc.name, Entry.ofDocumentation doc)]⟩ := by
  have hmerge : store.mergeEntry (Entry.ofDocumentation doc) =
      store.insert doc.name (Entry.ofDocumentation doc) := by
    show store.insert doc.name (((store.get? doc.name).getD { operationName := doc.name }).merge
      (Entry.ofDocumentation doc)) = _
    rw [hnew, Option.getD_none, merge_ofDocumentation]
  rw [Store.put?, ofText?_overrideText h, Option.map_some, List.foldl_cons, List.foldl_nil,
    hmerge, Store.insert_of_get?_eq_none hnew]

/-- Documentation with quotes, backslashes, a control character in front of a digit, an empty line
and a line that looks like the opening of a block, so that `escape` has work to do. -/
def sampleDocumentation : Documentation where
  name := "Pad"
  summary := "Pads \"x\" with \\0."
  description := "one\n\n  summary: <<END\n END of it"
  inputs := [⟨"x", "the '\x01' + 7\t"⟩, ⟨"y", ""⟩]
  attributes := [⟨"T", "\\\"\"\"\\"⟩]

/-- The document for `sampleDocumentation` goes into a store that holds another operation, and the
store then ends with its entry. -/
theorem put?_overrideText_sample :
    (Store.ofDefinitions [{ name := "Neg" }]).get? sampleDocumentation.name = none ∧
      Writable sampleDocumentation ∧
      (Store.ofDefinitions [{ name := "Neg" }]).put? (overrideText sampleDocumentation) =
        some ⟨(Store.ofDefinitions [{ name := "Neg" }]).entries ++
          [("Pad".toList, Entry.ofDocumentation sampleDocumentation)]⟩ := by
  have hnew : (Store.ofDefinitions [{ name := "Neg" }]).get? sampleDocumentation.name = none := by
    decide
  have hwritable : Writable sampleDocumentation :=
    ⟨by decide, by decide, by decide, by decide, by decide, by decide⟩
  exact ⟨hnew, hwritable, put?_overrideText _ _ hnew hwritable⟩

end TypedOps.Api
