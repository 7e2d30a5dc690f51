import TypedOps.Emit.Module
import TypedOps.Proofs.Emit.Method
import TypedOps.Proofs.Text.Plain

/-!
# `TypedOps.Proofs.Emit.CodeLines`: lines of code hold no triple quote

Outside its docstrings a method is made of names, annotations and fixed words. None
of these holds a quote or a line feed (`Text.Plain`), and a statement puts at most
two quotes around a name. So every line of code stands on one line and holds no
triple quote (`Line.IsCode`), as long as the operation is `WellNamed` and the
annotations of the type table are plain.
-/

set_option autoImplicit false

namespace TypedOps

open Naming (parameter)

open Text

/-! ### Names and annotations -/

/-- A code point of a name in snake case is a low line or comes from a code point of the name by
`lowered`, whatever stands in front of the name. -/
theorem Naming.mem_snakeCaseFrom {before : Option Char} {name : Text} {c : Char}
    (h : c ∈ snakeCaseFrom before name) : c = '_' ∨ ∃ d ∈ name, c ∈ lowered d := by
  -- The code point before decides on a low line in front, so it varies in the induction.
  induction name generalizing before with
  | nil => cases h
  | cons d name ih =>
    rw [snakeCaseFrom, List.mem_append, List.mem_append] at h
    rcases h with (hline | hhere) | hlater
    · split at hline
      · exact .inl (List.mem_singleton.mp hline)
      · cases hline
    · exact .inr ⟨d, List.mem_cons_self, hhere⟩
    · rcases ih hlater with hline | ⟨e, he, hmem⟩
      · exact .inl hline
      · exact .inr ⟨e, List.mem_cons_of_mem d he, hmem⟩

/-- A code point of the name of a method is a low line or comes from a code point of the operation's
name by `lowered`. -/
theorem Naming.mem_method {name : Text} {c : Char} (h : c ∈ method name) :
    c = '_' ∨ ∃ d ∈ name, c ∈ lowered d := by
  rw [method] at h
  split at h
  · rcases List.mem_append.mp h with h | h
    · exact mem_snakeCaseFrom h
    · exact .inl (List.mem_singleton.mp h)
  · exact mem_snakeCaseFrom h

/-- What `Naming.method` gives for an identifier holds no other mark than the low line. -/
theorem Naming.not_mem_method_of_isIdentifier {name : Text} {c : Char} (h : IsIdentifier name)
    (hc : ¬(c.isAlphanum ∨ c = '_' ∨ 128 ≤ c.toNat)) (hlow : c.toNat < 97) :
    c ∉ Naming.method name := by
  intro hmem
  rcases Naming.mem_method hmem with rfl | ⟨d, hd, hin⟩
  · exact hc (.inr (.inl rfl))
  · exact h.not_mem hc (eq_of_mem_lowered hin hlow ▸ hd)

/-- What `Naming.method` gives for a plain name is plain, so it can stand in code and in literals.
-/
theorem plain_method {name : Text} (h : Plain name) : Plain (Naming.method name) := by
  intro c hc
  rcases Naming.mem_method hc with rfl | ⟨d, hd, hlow⟩
  · decide
  · exact plain_lowered (h d hd) c hlow

/-- The `parameter` for a plain name is plain, also where a low line is put behind it. -/
theorem plain_parameter {name : Text} (h : Plain name) : Plain (parameter name) := by
  rw [parameter]
  split
  · next readable hreadable =>
    have hall : ∀ entry ∈ Naming.readableNames, Plain entry.2 := by decide
    obtain ⟨before, after, hentry, -⟩ := List.lookup_eq_some_iff.mp hreadable
    exact hall (name, readable) (by simp [hentry])
  · split
    · simp [h]
    · exact h

/-- A `TypeTable` whose annotations are `Plain`, as code that holds them has to be. -/
def TypeTable.IsPlain (table : TypeTable) : Prop := ∀ e t, table e = some t → Plain t

/-- The annotations of `TypeTable.standard` are plain. -/
theorem TypeTable.standard_isPlain : TypeTable.standard.IsPlain := by
  intro e t h
  cases e <;> cases h <;> decide

/-- The names in an operation's signature are identifiers (`IsIdentifier`). All theorems on the
shape of the code assume this of the catalog. -/
structure Operation.WellNamed (op : Operation) : Prop where
  name : IsIdentifier op.name
  inputs : ∀ a ∈ op.inputs, IsIdentifier a.name
  outputs : ∀ a ∈ op.outputs, IsIdentifier a.name
  attributes : ∀ a ∈ op.attributes, IsIdentifier a.name

/-- The name of one of the `givenAttributes` is plain, being an identifier. -/
theorem Operation.WellNamed.plain_given {op : Operation} (hnames : op.WellNamed) {a : Attribute}
    (ha : a ∈ op.givenAttributes) : Plain a.name :=
  (hnames.attributes a (List.mem_filter.mp ha).1).plain

/-! ### Lines of code -/

/-- A line of code: its text is `OneLine` and holds no triple quote, so it neither opens nor closes
a docstring. -/
structure Line.IsCode (line : Line) : Prop where
  oneLine : OneLine line.text
  bare : tripleQuotes line.text = 0

/-- A block of which every line `IsCode`. -/
def IsCodeBlock (block : List Line) : Prop := ∀ line ∈ block, line.IsCode

/-- Two blocks are an `IsCodeBlock` each exactly when both together are. -/
@[simp] theorem isCodeBlock_append (xs ys : List Line) :
    IsCodeBlock (xs ++ ys) ↔ IsCodeBlock xs ∧ IsCodeBlock ys := by
  simp only [IsCodeBlock, List.forall_mem_append]

/-- A block is an `IsCodeBlock` exactly when its first line is code and the rest is such a block. -/
@[simp] theorem isCodeBlock_cons (line : Line) (block : List Line) :
    IsCodeBlock (line :: block) ↔ line.IsCode ∧ IsCodeBlock block := by
  simp only [IsCodeBlock, List.forall_mem_cons]

/-- The empty block is an `IsCodeBlock`, as where there are no outputs to bind. -/
@[simp] theorem isCodeBlock_nil : IsCodeBlock [] := by
  simp [IsCodeBlock]

/-- Making a block `deeper` changes no text, so it is code exactly when it was. -/
@[simp] theorem isCodeBlock_deeper (block : List Line) :
    IsCodeBlock (deeper block) ↔ IsCodeBlock block := by
  constructor
  · intro h line hline
    obtain ⟨hone, hbare⟩ := h _ (List.mem_map_of_mem hline)
    exact ⟨hone, hbare⟩
  · intro h line hline
    obtain ⟨above, habove, rfl⟩ := List.mem_map.mp hline
    exact ⟨(h above habove).oneLine, (h above habove).bare⟩

/-- Blocks made for several things are an `IsCodeBlock` when each of them is. -/
theorem isCodeBlock_flatMap {α : Type} {f : α → List Line} {xs : List α}
    (h : ∀ x ∈ xs, IsCodeBlock (f x)) : IsCodeBlock (xs.flatMap f) := by
  intro line hline
  obtain ⟨x, hx, hline⟩ := List.mem_flatMap.mp hline
  exact h x hx line hline

/-- A line with a `Plain` text is code, since plain texts hold neither quotes nor line feeds. -/
theorem Line.isCode_of_plain {line : Line} (h : Plain line.text) : line.IsCode :=
  ⟨h.oneLine, h.tripleQuotes⟩

/-- A `Plain` text between quotes, with plain texts around it, holds no triple quote: the two quotes
do not meet. -/
theorem tripleQuotes_between {before name after : Text} (hbefore : Plain before)
    (hname : Plain name) (hafter : Plain after) :
    tripleQuotes (before ++ (Binding.between name ++ after)) = 0 := by
  refine tripleQuotes_of_count_le ?_
  simp [Binding.between, List.count_append, hbefore.count_quote,
    hname.count_quote, hafter.count_quote]

/-- A `Plain` text between quotes, with plain texts around it, stands on one line. -/
theorem oneLine_between {before name after : Text} (hbefore : Plain before)
    (hname : Plain name) (hafter : Plain after) :
    OneLine (before ++ (Binding.between name ++ after)) := by
  have hone := hbefore.oneLine
  have hone' := hname.oneLine
  have hone'' := hafter.oneLine
  simp only [OneLine] at hone hone' hone'' ⊢
  simp [Binding.between, hone, hone', hone'']

/-- A line with a `Plain` text between quotes is code. Most statements with a name in them are of
this form. -/
theorem Line.isCode_of_between {line : Line} {before name after : Text}
    (hline : line.text = before ++ (Binding.between name ++ after)) (hbefore : Plain before)
    (hname : Plain name) (hafter : Plain after) : line.IsCode := by
  constructor
  · rw [hline]
    exact oneLine_between hbefore hname hafter
  · rw [hline]
    exact tripleQuotes_between hbefore hname hafter

/-! ### The statements of a method -/

/-- The statement of `newDescription` is code. It names the operation twice, with a comma between
the quotes. -/
theorem isCode_newDescription {name : Text} (h : Plain name) :
    IsCodeBlock (Binding.newDescription name) := by
  have hfirst : Plain ("desc = OperationDescription(self, " : Text) := by decide
  have hsecond : Plain (" self.make_name(" : Text) := by decide
  have hend : Plain (", name))" : Text) := by decide
  -- The comma is no quote, so each half may be counted for itself. Together the line
  -- holds four quotes, which is too many to go by their number.
  have htext : Binding.newDescription name =
      [{ text := ("desc = OperationDescription(self, " : Text) ++ (Binding.between name ++ []) ++
          ',' :: ((" self.make_name(" : Text) ++ (Binding.between name ++ ", name))")) }] := by
    simp [Binding.newDescription]
  have hone := oneLine_between hfirst h plain_nil
  have hone' := oneLine_between hsecond h hend
  rw [htext, isCodeBlock_cons]
  refine ⟨⟨?_, ?_⟩, isCodeBlock_nil⟩
  · simp only [OneLine] at hone hone' ⊢
    simp only [List.mem_append, List.mem_cons, not_or] at hone hone' ⊢
    exact ⟨hone, by decide, hone'⟩
  · rw [tripleQuotes_append_cons _ (by decide), tripleQuotes_between hfirst h plain_nil,
      tripleQuotes_between hsecond h hend]

/-- The statement of `addInput` is code if its expression is plain. -/
theorem isCode_addInput {expr : Text} (h : Plain expr) (isList : Bool) :
    IsCodeBlock (Binding.addInput expr isList) := by
  rw [Binding.addInput, isCodeBlock_cons]
  refine ⟨Line.isCode_of_plain ?_, isCodeBlock_nil⟩
  cases isList <;> simp [h]

/-- The loop of `addControlInputs` is code, and always the same. -/
theorem isCode_addControlInputs : IsCodeBlock Binding.addControlInputs := by
  rw [Binding.addControlInputs, isCodeBlock_cons, isCodeBlock_cons]
  exact ⟨Line.isCode_of_plain (by decide), Line.isCode_of_plain (by decide), isCodeBlock_nil⟩

/-- A value that goes through a constructor by `coerced` stays plain. -/
theorem plain_coerced (tag : Text) {expr : Text} (h : Plain expr) :
    Plain (Binding.coerced tag expr) := by
  rw [Binding.coerced]
  split
  · next constructor hconstructor =>
    rw [TypeTag.constructor?] at hconstructor
    split at hconstructor
    · cases hconstructor
    · obtain ⟨e, -, he⟩ := Option.bind_eq_some_iff.mp hconstructor
      have hplain : Plain constructor := by
        cases e <;> cases he <;> decide
      simp [hplain, h]
  · exact h

/-- The statement of `setAttribute` is code, under every binding. -/
theorem isCode_setAttribute {table : TypeTable} {b : Binding} {operation : Text} {a : Attribute}
    {expr : Text} {block : List Line} (ha : Plain a.name) (hexpr : Plain expr)
    (h : b.setAttribute table operation a expr = .ok block) : IsCodeBlock block := by
  rw [Binding.setAttribute] at h
  split at h
  · cases h
  · next element isList hmapped =>
    obtain ⟨call, hcall, rfl⟩ := (map_eq_ok_iff _ _ _).mp h
    have hafter : Plain (", " ++ Binding.coerced a.tag expr ++ [')']) := by
      simp [plain_coerced a.tag hexpr]
    rw [isCodeBlock_cons]
    refine ⟨?_, isCodeBlock_nil⟩
    cases b with
    | base => cases hcall
    | graph =>
      cases hcall
      exact Line.isCode_of_between (by simp) (by decide : Plain "desc.set_attr(") ha hafter
    | typed =>
      rw [Binding.setterCall] at hcall
      split at hcall
      · cases hcall
      · next setter hsetter =>
        cases hcall
        -- Whichever setter it is, it is one of the table.
        obtain ⟨before, after, hentry, -⟩ := List.lookup_eq_some_iff.mp hsetter
        have hall : ∀ entry ∈ Binding.typedSetters, Plain entry.2 := by decide
        have hplain : Plain setter := hall (element, setter) (by simp [hentry])
        have hbefore : Plain (("desc.set_attr_" : Text) ++ setter ++
            if isList then ("_list(" : Text) else ("(" : Text)) := by
          cases isList <;> simp [hplain]
        exact Line.isCode_of_between (by simp only [List.append_assoc]) hbefore ha hafter

/-- The statements of `finishOperation` are code, under every binding. -/
theorem isCode_finishOperation {b : Binding} {operation : Text} {block : List Line}
    (hop : Plain operation) (h : b.finishOperation operation = .ok block) :
    IsCodeBlock block := by
  -- The name of the operation stands between quotes, which is the only place where a line of code
  -- holds any.
  have hraise : (Binding.raiseCreateError operation).IsCode :=
    Line.isCode_of_between (by simp [Binding.raiseCreateError])
      (by decide : Plain "raise OpCreateError(") hop (by decide : Plain ", status.message)")
  cases b with
  | base => cases h
  | graph =>
    cases h
    simp only [isCodeBlock_append, isCodeBlock_cons, isCodeBlock_deeper]
    exact ⟨⟨Line.isCode_of_plain (by decide), Line.isCode_of_plain (by decide),
      Line.isCode_of_plain (by decide), isCodeBlock_nil⟩, hraise, isCodeBlock_nil⟩
  | typed =>
    cases h
    simp only [isCodeBlock_append, isCodeBlock_cons, isCodeBlock_deeper]
    exact ⟨⟨Line.isCode_of_plain (by decide), isCodeBlock_nil⟩,
      ⟨Line.isCode_of_plain (by decide), Line.isCode_of_plain (by decide), isCodeBlock_nil⟩,
      hraise, isCodeBlock_nil⟩

namespace Operation

variable {table : TypeTable} {b : Binding} {op : Operation} {doc : Documentation}

/-- The annotation of an attribute's parameter is plain, as it comes from a table that `IsPlain`. -/
theorem plain_attributeHint {a : Attribute} {hint : Text} (htable : table.IsPlain)
    (h : op.attributeHint table a = .ok hint) : Plain hint := by
  rw [attributeHint] at h
  split at h
  · next hint hhint =>
    cases h
    rw [TypeTag.typeHint?] at hhint
    -- An annotation is taken from the table, in brackets if the tag is a list.
    have helement : ∀ element isList, TypeTag.mapped table a.tag = (some element, isList) →
        Plain element := by
      intro element isList hmapped
      have hfound := congrArg Prod.fst hmapped
      obtain ⟨e, -, he⟩ := Option.bind_eq_some_iff.mp hfound
      exact htable e element he
    split at hhint
    · cases hhint
    · next element hmapped =>
      cases hhint
      simp [helement element true hmapped]
    · next element hmapped =>
      cases hhint
      exact helement _ false hmapped
  · cases h

/-- The `typeHint` of an input or an output is one of a few plain texts. -/
theorem plain_typeHint (a : Argument) : Plain a.typeHint := by
  rw [Argument.typeHint]
  cases a.isList <;> decide

/-- The parameters of `signatureParams`, with their annotations and defaults, are plain. -/
theorem plain_of_mem_signatureParams {params : List Text} (htable : table.IsPlain)
    (hnames : op.WellNamed) (h : op.signatureParams table = .ok params) :
    ∀ param ∈ params, Plain param := by
  simp only [signatureParams, bind_eq_ok_iff] at h
  obtain ⟨required, hrequired, optional, hoptional, h⟩ := h
  cases h
  have hattribute : ∀ a ∈ op.givenAttributes, Plain (parameter a.name) := fun a ha =>
    plain_parameter (hnames.plain_given ha)
  intro param hparam
  -- The receiver, the inputs, the required and the optional attributes, and the name.
  simp only [List.mem_append, List.mem_singleton, List.mem_map] at hparam
  rcases hparam with (((rfl | ⟨a, ha, rfl⟩) | hparam) | hparam) | rfl
  · decide
  · simp [plain_parameter (hnames.inputs a ha).plain, plain_typeHint]
  · obtain ⟨a, ha, h⟩ := exists_of_mem_mapM hrequired hparam
    obtain ⟨hint, hhint, h⟩ := (bind_eq_ok_iff _ _ _).mp h
    cases h
    simp [hattribute a (List.mem_filter.mp ha).1, plain_attributeHint htable hhint]
  · obtain ⟨a, ha, h⟩ := exists_of_mem_mapM hoptional hparam
    obtain ⟨hint, hhint, h⟩ := (bind_eq_ok_iff _ _ _).mp h
    cases h
    simp [hattribute a (List.mem_filter.mp ha).1, plain_attributeHint htable hhint]
  · decide

/-- The `defLine` that opens a method is code if its parameters are plain. -/
theorem isCode_defLine {params : List Text} (hnames : op.WellNamed)
    (h : ∀ param ∈ params, Plain param) : (op.defLine params).IsCode := by
  refine Line.isCode_of_plain ?_
  have hreturn : Plain op.returnHint := by
    rw [returnHint]
    split
    · decide
    · next a _ => exact plain_typeHint a
    · have hclass : Plain op.outputsClass := by simp [outputsClass, hnames.name.plain]
      have hcontainer : Plain containerName := by decide
      simp [hcontainer, hclass]
  have hparams : Plain (join [',', ' '] params) := plain_join (by decide) h
  simp [defLine, plain_method hnames.name.plain, hparams, hreturn]

/-- The statements of `settersBlock` are code, those for optional attributes with their guards. -/
theorem isCode_settersBlock {setters : List Line} (hnames : op.WellNamed)
    (h : op.settersBlock table b = .ok setters) : IsCodeBlock setters := by
  simp only [settersBlock, bind_eq_ok_iff] at h
  obtain ⟨required, hrequired, optional, hoptional, h⟩ := h
  cases h
  have hset : ∀ a ∈ op.givenAttributes, ∀ block,
      b.setAttribute table op.name a (parameter a.name) = .ok block → IsCodeBlock block := by
    intro a ha block hblock
    have hname := hnames.plain_given ha
    exact isCode_setAttribute hname (plain_parameter hname) hblock
  rw [isCodeBlock_append]
  constructor <;> intro line hline <;> obtain ⟨block, hblock, hline⟩ := List.mem_flatten.mp hline
  · obtain ⟨a, ha, hblock⟩ := exists_of_mem_mapM hrequired hblock
    exact hset a (List.mem_filter.mp ha).1 block hblock line hline
  · obtain ⟨a, ha, hblock⟩ := exists_of_mem_mapM hoptional hblock
    have ha := (List.mem_filter.mp ha).1
    obtain ⟨setter, hsetter, hblock⟩ := (bind_eq_ok_iff _ _ _).mp hblock
    cases hblock
    have hname := plain_parameter (hnames.plain_given ha)
    -- A default is put in front of the statements that set the attribute.
    rcases List.mem_cons.mp hline with rfl | hline
    · exact Line.isCode_of_plain (by simp [hname])
    · exact (isCodeBlock_deeper setter).mpr (hset a ha setter hsetter) line hline

/-- The statements of `outputsBlock` are code, for lists as for single outputs. -/
theorem isCode_outputsBlock (hnames : op.WellNamed) : IsCodeBlock op.outputsBlock := by
  rw [outputsBlock]
  split
  · exact isCodeBlock_nil
  · rw [isCodeBlock_cons]
    refine ⟨Line.isCode_of_plain (by decide), isCodeBlock_flatMap fun a ha => ?_⟩
    have hname := (hnames.outputs a ha).plain
    have hparameter := plain_parameter hname
    rw [bindOutput]
    split
    · simp only [isCodeBlock_cons]
      exact ⟨Line.isCode_of_between (by simp) (by decide : Plain "_n = op.get_output_list_length(")
          hname (by decide : Plain ")"),
        Line.isCode_of_plain (by simp [hparameter]), Line.isCode_of_plain (by decide),
        isCodeBlock_nil⟩
    · simp only [isCodeBlock_cons]
      exact ⟨Line.isCode_of_plain (by simp [hparameter]), Line.isCode_of_plain (by decide),
        isCodeBlock_nil⟩

/-- The `returnLine` is plain, whichever of its forms it has. -/
theorem plain_returnLine (hnames : op.WellNamed) : Plain op.returnLine.text := by
  have hparameter : ∀ a ∈ op.outputs, Plain (parameter a.name) := fun a ha =>
    plain_parameter (hnames.outputs a ha).plain
  rw [returnLine]
  split
  · decide
  · next a hout =>
    have ha := hparameter a (by simp [hout])
    simp [ha]
  · have hall : Plain (join [',', ' '] (op.outputs.map fun a => parameter a.name)) :=
      plain_join (by decide) (by simpa using hparameter)
    simp [outputsClass, hnames.name.plain, hall]

/-- The `body` behind the docstring of a method is code, so the docstring is the only place with
triple quotes. -/
theorem isCode_body {p : Pieces} (hnames : op.WellNamed) (h : op.pieces table b doc = .ok p) :
    IsCodeBlock (p.body op) := by
  obtain ⟨-, -, hsetters, hfinish⟩ := (pieces_eq_ok_iff table b op doc p).mp h
  have hinputs : IsCodeBlock
      (op.inputs.flatMap fun a => Binding.addInput (parameter a.name) a.isList) :=
    isCodeBlock_flatMap fun a ha =>
      isCode_addInput (plain_parameter (hnames.inputs a ha).plain) a.isList
  simp only [Pieces.body, isCodeBlock_append, isCodeBlock_cons]
  exact ⟨isCode_newDescription hnames.name.plain, hinputs, isCode_addControlInputs,
    isCode_settersBlock hnames hsetters, isCode_finishOperation hnames.name.plain hfinish,
    isCode_outputsBlock hnames, Line.isCode_of_plain (plain_returnLine hnames), isCodeBlock_nil⟩

/-- The `outputsClassBlock`, if there is one, is a class line, a docstring on one line and the
fields. -/
theorem outputsClassBlock_cases (hnames : op.WellNamed) :
    op.outputsClassBlock = [] ∨ ∃ opening docstring fields,
      op.outputsClassBlock = opening :: docstring :: fields ∧ opening.IsCode ∧
        OneLine docstring.text ∧ tripleQuotes docstring.text = 2 ∧ IsCodeBlock fields := by
  rw [outputsClassBlock]
  split
  · exact Or.inl rfl
  · exact Or.inl rfl
  -- The four facts are about the class line, the docstring twice, and the fields.
  · refine Or.inr ⟨_, _, _, rfl, Line.isCode_of_plain ?_, ?_, ?_, ?_⟩
    · simp [outputsClass, hnames.name.plain]
    · have hone := (plain_method hnames.name.plain).oneLine
      simp only [OneLine] at hone ⊢
      simp [hone]
    · -- The full stop separates the closing quotes from the words.
      have hwords : Plain (("Outputs of :meth:\x60" : Text) ++ (Naming.method op.name ++
          ['\x60'])) := by
        simp [plain_method hnames.name.plain]
      have htext : ("\"\"\"Outputs of :meth:\x60" ++ Naming.method op.name ++
          "\x60.\"\"\"" : Text) = fill 3 '"' ++ ((("Outputs of :meth:\x60" : Text) ++
            (Naming.method op.name ++ ['\x60'])) ++ '.' :: fill 3 '"') := by
        simp [fill, List.replicate]
      show tripleQuotes ("\"\"\"Outputs of :meth:\x60" ++ Naming.method op.name ++
        "\x60.\"\"\"" : Text) = 2
      rw [htext, tripleQuotes_fill_append 3 (by simp), tripleQuotes_append_cons _ (by decide),
        hwords.tripleQuotes, tripleQuotes_fill]
    · intro line hline
      obtain ⟨field, hfield, rfl⟩ := List.mem_map.mp hline
      obtain ⟨a, ha, rfl⟩ := List.mem_map.mp hfield
      exact Line.isCode_of_plain
        (by simp [plain_parameter (hnames.outputs a ha).plain, plain_typeHint])

end Operation

end TypedOps
