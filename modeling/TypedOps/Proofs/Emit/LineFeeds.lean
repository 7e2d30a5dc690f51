import TypedOps.Proofs.Emit.DocLines

/-!
# `TypedOps.Proofs.Emit.LineFeeds`: a line of a method is one line of its text

Names go into a method as they are, and a line feed in one would break a line. Nothing else
does: the documentation is cut at its line feeds and a default is shown before it is cut. So
where no name of an operation holds a line feed (`Operation.OneLineNames`), no line of its method
does (`Operation.oneLineEach_block`). The names need not be identifiers for this.
-/

set_option autoImplicit false

namespace TypedOps

open Naming (parameter)
open Text

/-! ### Names -/

/-- Pieces with `OneLine`, and a separator with it between them, stand on one line when they are
joined. -/
theorem oneLine_join {sep : Text} {pieces : List Text} (hsep : OneLine sep)
    (h : ∀ piece ∈ pieces, OneLine piece) : OneLine (join sep pieces) := by
  intro hmem
  rcases mem_join hmem with hmem | ⟨piece, hpiece, hmem⟩
  · exact hsep hmem
  · exact h piece hpiece hmem

/-- A name without a line feed gives a name by `Naming.method` without one, since lowering adds
none. -/
theorem oneLine_method {name : Text} (h : OneLine name) : OneLine (Naming.method name) := by
  intro hmem
  rcases Naming.mem_method hmem with heq | ⟨d, hd, hlow⟩
  · exact absurd heq (by decide)
  · exact h (eq_of_mem_lowered hlow (by decide) ▸ hd)

/-- A name without a line feed gives a `parameter` without one. -/
theorem oneLine_parameter {name : Text} (h : OneLine name) : OneLine (parameter name) := by
  rw [parameter]
  split
  · next readable hreadable =>
    have hall : ∀ entry ∈ Naming.readableNames, '\n' ∉ entry.2 := by decide
    obtain ⟨before, after, hentry, -⟩ := List.lookup_eq_some_iff.mp hreadable
    exact hall (name, readable) (by simp [hentry])
  · split
    · exact oneLine_append.mpr ⟨h, by decide⟩
    · exact h

/-- The names in an operation's signature stand on one line. It is less than `WellNamed`, and all
that counting lines needs. -/
structure Operation.OneLineNames (op : Operation) : Prop where
  name : OneLine op.name
  inputs : ∀ a ∈ op.inputs, OneLine a.name
  outputs : ∀ a ∈ op.outputs, OneLine a.name
  attributes : ∀ a ∈ op.attributes, OneLine a.name

/-- If an operation is `WellNamed`, its names stand on one line, being identifiers. -/
theorem Operation.WellNamed.oneLineNames {op : Operation} (h : op.WellNamed) : op.OneLineNames :=
  ⟨h.name.plain.oneLine, fun a ha => (h.inputs a ha).plain.oneLine,
    fun a ha => (h.outputs a ha).plain.oneLine, fun a ha => (h.attributes a ha).plain.oneLine⟩

/-! ### The parts of a method -/

/-- A block each line of which is `OneLine`: no line feed is in its text. -/
def OneLineEach (block : List Line) : Prop := ∀ line ∈ block, OneLine line.text

/-- Two blocks satisfy `OneLineEach` exactly when both together do. -/
theorem oneLineEach_append {xs ys : List Line} :
    OneLineEach (xs ++ ys) ↔ OneLineEach xs ∧ OneLineEach ys :=
  List.forall_mem_append

/-- Making a block `deeper` brings no line feed into its texts. -/
theorem OneLineEach.deeper {block : List Line} (h : OneLineEach block) :
    OneLineEach (deeper block) := by
  intro line hline
  obtain ⟨above, habove, rfl⟩ := List.mem_map.mp hline
  exact h above habove

/-- A block of a single line satisfies `OneLineEach` if its text is on one line. -/
theorem oneLineEach_singleton {t : Text} (h : OneLine t) : OneLineEach [{ text := t }] := by
  intro line hline
  rw [List.mem_singleton.mp hline]
  exact h

/-- Fixed words in front of a text and behind it leave it with `OneLine`, if they have it
themselves. -/
theorem oneLine_around {before t after : Text} (hbefore : OneLine before) (ht : OneLine t)
    (hafter : OneLine after) : OneLine (before ++ t ++ after) :=
  oneLine_append.mpr ⟨oneLine_append.mpr ⟨hbefore, ht⟩, hafter⟩

/-- A text that stands on one line still does `between` quotes. -/
theorem oneLine_quotes {t : Text} (h : OneLine t) : OneLine (Binding.between t) :=
  oneLine_around (by decide : OneLine ['"']) h (by decide : OneLine ['"'])

/-- The statement of `newDescription` stands on one line if the name of the operation does. -/
theorem oneLineEach_newDescription {name : Text} (h : OneLine name) :
    OneLineEach (Binding.newDescription name) := by
  have hfirst := oneLine_around (by decide : OneLine "desc = OperationDescription(self, ")
    (oneLine_quotes h) (by decide : OneLine ", self.make_name(")
  exact oneLineEach_singleton (oneLine_around hfirst (oneLine_quotes h) (by decide))

/-- The statement of `addInput` stands on one line if its expression does. -/
theorem oneLineEach_addInput {expr : Text} (h : OneLine expr) (isList : Bool) :
    OneLineEach (Binding.addInput expr isList) := by
  refine oneLineEach_singleton (oneLine_around ?_ h (by decide))
  cases isList <;> decide

/-- A value that goes through a constructor by `coerced` stays on one line. -/
theorem oneLine_coerced (tag : Text) {expr : Text} (h : OneLine expr) :
    OneLine (Binding.coerced tag expr) := by
  rw [Binding.coerced]
  split
  · next constructor hconstructor =>
    rw [TypeTag.constructor?] at hconstructor
    split at hconstructor
    · cases hconstructor
    · obtain ⟨e, -, he⟩ := Option.bind_eq_some_iff.mp hconstructor
      have hplain : OneLine constructor := by
        cases e <;> cases he <;> decide
      have hopen : OneLine (constructor ++ ['(']) := oneLine_append.mpr ⟨hplain, by decide⟩
      simpa using oneLine_around hopen h (by decide : OneLine [')'])
  · exact h

/-- The statements of `setAttribute` stand on one line each, under every binding. -/
theorem oneLineEach_setAttribute {table : TypeTable} {b : Binding} {operation : Text}
    {a : Attribute} {expr : Text} {block : List Line} (ha : OneLine a.name) (hexpr : OneLine expr)
    (h : b.setAttribute table operation a expr = .ok block) : OneLineEach block := by
  rw [Binding.setAttribute] at h
  split at h
  · cases h
  · next element isList _ =>
    obtain ⟨call, hcall, rfl⟩ := (map_eq_ok_iff _ _ _).mp h
    refine oneLineEach_singleton ?_
    have hvalue := oneLine_coerced a.tag hexpr
    -- Whatever the method is called, its arguments are the key and the value.
    have harguments : ∀ {method : Text}, OneLine method →
        OneLine (method ++ Binding.between a.name ++ ", " ++ Binding.coerced a.tag expr ++ [')']) :=
      fun hmethod => oneLine_around (oneLine_around hmethod (oneLine_quotes ha) (by decide)) hvalue
        (by decide)
    cases b with
    | base => cases hcall
    | graph =>
      cases hcall
      exact harguments (by decide : OneLine "desc.set_attr(")
    | typed =>
      rw [Binding.setterCall] at hcall
      split at hcall
      · cases hcall
      · next setter hsetter =>
        cases hcall
        obtain ⟨before, after, hentry, -⟩ := List.lookup_eq_some_iff.mp hsetter
        have hall : ∀ entry ∈ Binding.typedSetters, '\n' ∉ entry.2 := by decide
        have hplain : OneLine setter := hall (element, setter) (by simp [hentry])
        refine harguments (oneLine_around (by decide) hplain ?_)
        cases isList <;> decide

/-- The statements of `finishOperation` stand on one line each, under every binding. -/
theorem oneLineEach_finishOperation {b : Binding} {operation : Text} {block : List Line}
    (hop : OneLine operation) (h : b.finishOperation operation = .ok block) :
    OneLineEach block := by
  have hraise : OneLineEach [Binding.raiseCreateError operation] :=
    oneLineEach_singleton (oneLine_around (by decide) (oneLine_quotes hop) (by decide))
  -- The fixed lines are decided, and the one with the name of the operation is the same under both
  -- bindings.
  cases b with
  | base => cases h
  | graph =>
    cases h
    have hstatus : ∀ line ∈ ([{ text := "status = Status()" },
        { text := "op = desc.finish_operation(status)" }, { text := "if not status.ok:" }] :
          List Line), OneLine line.text := by decide
    exact oneLineEach_append.mpr ⟨hstatus, hraise.deeper⟩
  | typed =>
    cases h
    have hfinish : ∀ line ∈ ([{ text := "op = desc.finish_operation(status)" },
        { text := "if status.error:" }] : List Line), OneLine line.text := by decide
    have hbelow := (oneLineEach_append.mpr ⟨hfinish, hraise.deeper⟩).deeper
    exact oneLineEach_append.mpr ⟨oneLineEach_singleton (by decide), hbelow⟩

namespace Operation

variable {table : TypeTable} {b : Binding} {op : Operation} {doc : Documentation}

/-- The statements of `settersBlock` stand on one line each, with the guards of optional attributes.
-/
theorem oneLineEach_settersBlock {setters : List Line} (hnames : op.OneLineNames)
    (h : op.settersBlock table b = .ok setters) : OneLineEach setters := by
  simp only [settersBlock, bind_eq_ok_iff] at h
  obtain ⟨required, hrequired, optional, hoptional, h⟩ := h
  cases h
  have hname : ∀ a ∈ op.givenAttributes, OneLine a.name := fun a ha =>
    hnames.attributes a (List.mem_filter.mp ha).1
  rw [oneLineEach_append]
  -- A required attribute has its setter alone, an optional one has it below a guard.
  constructor <;> intro line hline <;> obtain ⟨block, hblock, hline⟩ := List.mem_flatten.mp hline
  · obtain ⟨a, ha, hblock⟩ := exists_of_mem_mapM hrequired hblock
    have ha := hname a (List.mem_filter.mp ha).1
    exact oneLineEach_setAttribute ha (oneLine_parameter ha) hblock line hline
  · obtain ⟨a, ha, hblock⟩ := exists_of_mem_mapM hoptional hblock
    have ha := hname a (List.mem_filter.mp ha).1
    obtain ⟨setter, hsetter, hblock⟩ := (bind_eq_ok_iff _ _ _).mp hblock
    cases hblock
    rcases List.mem_cons.mp hline with rfl | hline
    · exact oneLine_around (by decide) (oneLine_parameter ha) (by decide)
    · exact (oneLineEach_setAttribute ha (oneLine_parameter ha) hsetter).deeper line hline

/-- The statements of `outputsBlock` stand on one line each, if the names of the outputs do. -/
theorem oneLineEach_outputsBlock (hnames : op.OneLineNames) : OneLineEach op.outputsBlock := by
  rw [outputsBlock]
  split
  · intro line hline
    cases hline
  · intro line hline
    rcases List.mem_cons.mp hline with rfl | hline
    · decide
    · obtain ⟨a, ha, hline⟩ := List.mem_flatMap.mp hline
      have hname := hnames.outputs a ha
      -- A line begins with the variable of an output or is one of the fixed ones, but for the one
      -- that asks for the length.
      have hvariable : ∀ {words : Text}, OneLine words → OneLine (parameter a.name ++ words) :=
        fun hwords => oneLine_append.mpr ⟨oneLine_parameter hname, hwords⟩
      rw [bindOutput] at hline
      split at hline
      · simp only [List.mem_cons, List.not_mem_nil, or_false] at hline
        rcases hline with rfl | rfl | rfl
        · exact oneLine_around (by decide) (oneLine_quotes hname) (by decide)
        · exact hvariable (by decide)
        · decide
      · simp only [List.mem_cons, List.not_mem_nil, or_false] at hline
        rcases hline with rfl | rfl
        · exact hvariable (by decide)
        · decide

/-- The `returnLine` stands on one line, whichever of its forms it has. -/
theorem oneLine_returnLine (hnames : op.OneLineNames) : OneLine op.returnLine.text := by
  rw [returnLine]
  split
  · decide
  · next a hout =>
    have ha := hnames.outputs a (by simp [hout])
    exact oneLine_append.mpr ⟨by decide, oneLine_parameter ha⟩
  · have hclass : OneLine ("return self." ++ op.outputsClass ++ ['(']) :=
      oneLine_around (by decide) (oneLine_append.mpr ⟨hnames.name, by decide⟩) (by decide)
    -- The values are joined on the same line.
    have hvalues : OneLine (join ", " (op.outputs.map fun a => parameter a.name)) := by
      refine oneLine_join (by decide) fun value hvalue => ?_
      obtain ⟨a, ha, rfl⟩ := List.mem_map.mp hvalue
      exact oneLine_parameter (hnames.outputs a ha)
    simpa using oneLine_around hclass hvalues (by decide : OneLine [')'])

/-- The `body` of a method stands on one line for each of its statements. -/
theorem oneLineEach_body {p : Pieces} (hnames : op.OneLineNames)
    (h : op.pieces table b doc = .ok p) : OneLineEach (p.body op) := by
  obtain ⟨-, -, hsetters, hfinish⟩ := (pieces_eq_ok_iff table b op doc p).mp h
  -- The seven parts of the body are gone through in their order.
  have hinputs : OneLineEach
      (op.inputs.flatMap fun a => Binding.addInput (parameter a.name) a.isList) := by
    intro line hline
    obtain ⟨a, ha, hline⟩ := List.mem_flatMap.mp hline
    exact oneLineEach_addInput (oneLine_parameter (hnames.inputs a ha)) a.isList line hline
  have hcontrol : ∀ line ∈ Binding.addControlInputs, OneLine line.text := by decide
  have hreturn : OneLineEach [op.returnLine] := by
    intro line hline
    rw [List.mem_singleton.mp hline]
    exact oneLine_returnLine hnames
  simp only [Pieces.body, oneLineEach_append]
  exact ⟨oneLineEach_newDescription hnames.name, hinputs, hcontrol,
    oneLineEach_settersBlock hnames hsetters, oneLineEach_finishOperation hnames.name hfinish,
    oneLineEach_outputsBlock hnames, hreturn⟩

/-- The lines of the `outputsClassBlock` stand on one line each, the docstring included. -/
theorem oneLineEach_outputsClassBlock (hnames : op.OneLineNames) :
    OneLineEach op.outputsClassBlock := by
  rw [outputsClassBlock]
  split
  · intro line hline
    cases hline
  · intro line hline
    cases hline
  · have hname : OneLine op.outputsClass := oneLine_append.mpr ⟨hnames.name, by decide⟩
    have hclass := oneLineEach_singleton (oneLine_around (by decide : OneLine "class ") hname
      (by decide : OneLine "(NamedTuple):"))
    refine oneLineEach_append.mpr ⟨hclass, OneLineEach.deeper fun line hline => ?_⟩
    -- Below the class line stand the docstring and one field for each output.
    rcases List.mem_cons.mp hline with rfl | hline
    · exact oneLine_around (by decide) (oneLine_method hnames.name) (by decide)
    · obtain ⟨a, ha, rfl⟩ := List.mem_map.mp hline
      exact oneLine_around (oneLine_parameter (hnames.outputs a ha)) (by decide)
        (plain_typeHint a).oneLine

/-- The parameters of `signatureParams` stand on one line, with their annotations and defaults. -/
theorem oneLine_of_mem_signatureParams {params : List Text} (htable : table.IsPlain)
    (hnames : op.OneLineNames) (h : op.signatureParams table = .ok params) :
    ∀ param ∈ params, OneLine param := by
  simp only [signatureParams, bind_eq_ok_iff] at h
  obtain ⟨required, hrequired, optional, hoptional, h⟩ := h
  cases h
  have hattribute : ∀ a ∈ op.givenAttributes, OneLine (parameter a.name ++ ": ") := fun a ha =>
    oneLine_append.mpr
      ⟨oneLine_parameter (hnames.attributes a (List.mem_filter.mp ha).1), by decide⟩
  intro param hparam
  -- The receiver, the inputs, the required and the optional attributes, and the name.
  simp only [List.mem_append, List.mem_singleton, List.mem_map] at hparam
  rcases hparam with (((rfl | ⟨a, ha, rfl⟩) | hparam) | hparam) | rfl
  · decide
  · exact oneLine_around (oneLine_parameter (hnames.inputs a ha)) (by decide)
      (plain_typeHint a).oneLine
  · obtain ⟨a, ha, h⟩ := exists_of_mem_mapM hrequired hparam
    obtain ⟨hint, hhint, h⟩ := (bind_eq_ok_iff _ _ _).mp h
    cases h
    exact oneLine_append.mpr
      ⟨hattribute a (List.mem_filter.mp ha).1, (plain_attributeHint htable hhint).oneLine⟩
  · obtain ⟨a, ha, h⟩ := exists_of_mem_mapM hoptional hparam
    obtain ⟨hint, hhint, h⟩ := (bind_eq_ok_iff _ _ _).mp h
    cases h
    exact oneLine_around (hattribute a (List.mem_filter.mp ha).1)
      (plain_attributeHint htable hhint).oneLine (by decide)
  · decide

/-- The `defLine` that opens a method stands on one line if its parameters do. -/
theorem oneLine_defLine {params : List Text} (hnames : op.OneLineNames)
    (h : ∀ param ∈ params, OneLine param) : OneLine (op.defLine params).text := by
  -- The line is the opening, the parameters joined, the result and the colon.
  have hreturn : OneLine op.returnHint := by
    rw [returnHint]
    split
    · decide
    · next a _ => exact (plain_typeHint a).oneLine
    · have hclass : OneLine op.outputsClass := oneLine_append.mpr ⟨hnames.name, by decide⟩
      exact oneLine_append.mpr
        ⟨by decide, oneLine_append.mpr ⟨(by decide : OneLine ['.']), hclass⟩⟩
  have hopening : OneLine ("def " ++ Naming.method op.name ++ ['(']) :=
    oneLine_around (by decide) (oneLine_method hnames.name) (by decide)
  have hjoined : OneLine (join ", " params) := oneLine_join (by decide) h
  have hparams := oneLine_around hopening hjoined (by decide : OneLine ") -> ")
  have hline := oneLine_around hparams hreturn (by decide : OneLine [':'])
  simpa [defLine] using hline

end Operation

/-- The lines of a docstring stand on one line each, because `escapedDocLine` adds no line feed. -/
theorem oneLineEach_docstringBlock {ls : List Text} (h : ∀ l ∈ ls, OneLine l) :
    OneLineEach (docstringBlock ls) := by
  have hquotes : OneLine tripleQuote := by decide
  intro line hline
  obtain ⟨t, ht, rfl⟩ := List.mem_map.mp hline
  -- The opening quotes share a line with the first line of the text, if there is one.
  rcases List.mem_append.mp ht with ht | ht
  · cases ls with
    | nil => simpa [List.mem_singleton.mp ht] using hquotes
    | cons first rest =>
      rcases List.mem_cons.mp ht with rfl | ht
      · exact oneLine_append.mpr
          ⟨hquotes, oneLine_escapedDocLine (h first List.mem_cons_self)⟩
      · obtain ⟨l, hl, rfl⟩ := List.mem_map.mp ht
        exact oneLine_escapedDocLine (h l (List.mem_cons_of_mem first hl))
  · simpa [List.mem_singleton.mp ht] using hquotes

/-- Each line of the `block` of a method stands on one line when its names do, so that lines of the
block are lines of the text. -/
theorem Operation.oneLineEach_block {table : TypeTable} {b : Binding} {op : Operation}
    {doc : Documentation} {p : Operation.Pieces} (htable : table.IsPlain)
    (hnames : op.OneLineNames) (h : op.pieces table b doc = .ok p) :
    OneLineEach (p.block op) := by
  obtain ⟨hparams, hdocLines, -, -⟩ := (Operation.pieces_eq_ok_iff table b op doc p).mp h
  have hdef : OneLineEach [op.defLine p.params] := by
    intro line hline
    rw [List.mem_singleton.mp hline]
    exact oneLine_defLine hnames (oneLine_of_mem_signatureParams htable hnames hparams)
  -- The names make no line feeds in the heads of fields, which is what the docstring needs of them.
  have hhead : ∀ name, OneLine name → OneLine (paramHead (parameter name)) := by
    intro name hname
    unfold paramHead
    exact oneLine_around (by decide) (oneLine_parameter hname) (by decide)
  have hdocstring : OneLineEach (docstringBlock p.docLines) :=
    oneLineEach_docstringBlock (oneLine_of_mem_docstringLines
      (fun a ha => hhead a.name (hnames.inputs a ha))
      (fun a ha => hhead a.name (hnames.attributes a ha)) hdocLines)
  have hbelow : OneLineEach (deeper (docstringBlock p.docLines) ++ deeper (p.body op)) :=
    oneLineEach_append.mpr ⟨hdocstring.deeper, (oneLineEach_body hnames h).deeper⟩
  exact oneLineEach_append.mpr
    ⟨oneLineEach_outputsClassBlock hnames, oneLineEach_append.mpr ⟨hdef, hbelow⟩⟩

end TypedOps
