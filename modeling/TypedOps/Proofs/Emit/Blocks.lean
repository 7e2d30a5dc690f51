import TypedOps.Proofs.Emit.DocstringValue
import TypedOps.Proofs.Emit.Marks
import TypedOps.Proofs.Emit.ParameterNames
import TypedOps.Proofs.Script.Rows

/-!
# `TypedOps.Proofs.Emit.Blocks`: generated modules are made of blocks

A writer keeps the level of the next line, and the parts of a method are written one behind the
other and one inside the other. `Lays` says of a block of lines that, written at any level, it is
read as statements that form a suite at that level, and `Fills` that there is at least one of
them. Both pass from parts to what is put together from them, so each part of a method needs a look
at the texts of its own lines only: how they begin and how they end.

* `fills_simple`, `fills_compound`, `fills_literal`: the three ways in which a block comes about.
* `Operation.lays_method`: so the lines of a method, with the tuple of its outputs in front, form a
  suite.
* `blockStructured_generateModule`: so the statements of every generated module do.
-/

set_option autoImplicit false

namespace TypedOps

open Naming (parameter)
open Operation (Pieces)
open Script
open Text

/-! ### Blocks at a level -/

/-- The text of a block at a level, where each line is put through `Line.render` and ends in a line
feed. -/
def textAt (level : Nat) (block : List Line) : Text :=
  block.flatMap fun line => line.render level ++ ['\n']

/-- The `textAt` a level of two blocks in a row is the text of the first, followed by that of the
second. -/
theorem textAt_append (level : Nat) (xs ys : List Line) :
    textAt level (xs ++ ys) = textAt level xs ++ textAt level ys :=
  List.flatMap_append

/-- A block that is made `deeper` is written as the block itself is one level further in. -/
theorem textAt_deeper (level : Nat) (block : List Line) :
    textAt level (deeper block) = textAt (level + 1) block := by
  rw [textAt, deeper, List.flatMap_map, textAt]
  refine List.flatMap_congr fun line _ => ?_
  have hlevel : (level : Int) + ((line.depth + 1 : Nat) : Int) =
      ((level + 1 : Nat) : Int) + (line.depth : Int) := by omega
  simp only [Line.render]
  rw [hlevel]

/-- The `textAt` a level of a line that is not empty is the line behind four spaces for each level.
-/
theorem textAt_singleton (level : Nat) {t : Text} (h : t ≠ []) :
    textAt level [{ text := t }] = fill (4 * level) ' ' ++ t ++ ['\n'] := by
  simp [textAt, Line.render, indented, h, indentation]

/-- Written at a level, a block is read by `rows?` as a suite at that level. It may be empty, so
that nothing is required of its number of statements. -/
def LaysAt (level : Nat) (block : List Line) : Prop :=
  ∃ rs, Yields (textAt level block) rs ∧ Suite (4 * level) rs

/-- A block that `LaysAt` every level, which is what the writer needs: it decides on the level
later. -/
def Lays (block : List Line) : Prop := ∀ level, LaysAt level block

/-- A block that is read as a suite at every level (`LaysAt`), and with at least one statement in
it, as a suite below an opening line has to have. -/
def Fills (block : List Line) : Prop :=
  ∀ level, ∃ rs, rs ≠ [] ∧ Yields (textAt level block) rs ∧ Suite (4 * level) rs

/-- A block that `Fills` its level is laid out as a block, its statements being at least one. -/
theorem Fills.lays {block : List Line} (h : Fills block) : Lays block := by
  intro level
  obtain ⟨rs, -, hyields, hsuite⟩ := h level
  exact ⟨rs, hyields, hsuite⟩

/-- The empty block has `Lays`: it is laid out at every level, with no statement. -/
theorem lays_nil : Lays [] := fun _ => ⟨[], yields_nil, .nil⟩

/-- Two blocks that satisfy `LaysAt` at a level do so in a row, since suites at one indentation are
put together. -/
theorem LaysAt.append {level : Nat} {xs ys : List Line} (hx : LaysAt level xs)
    (hy : LaysAt level ys) : LaysAt level (xs ++ ys) := by
  obtain ⟨rs, hyields, hsuite⟩ := hx
  obtain ⟨rs', hyields', hsuite'⟩ := hy
  refine ⟨rs ++ rs', ?_, hsuite.append hsuite'⟩
  rw [textAt_append]
  exact hyields.append hyields'

/-- Two blocks in a row have `Lays` if each of them has it, since this is so at every level. -/
theorem Lays.append {xs ys : List Line} (hx : Lays xs) (hy : Lays ys) : Lays (xs ++ ys) :=
  fun level => (hx level).append (hy level)

/-- A block in front that `Fills` its level is enough for both to do so. -/
theorem Fills.append {xs ys : List Line} (hx : Fills xs) (hy : Lays ys) : Fills (xs ++ ys) := by
  intro level
  obtain ⟨rs, hne, hyields, hsuite⟩ := hx level
  obtain ⟨rs', hyields', hsuite'⟩ := hy level
  refine ⟨rs ++ rs', by simp [hne], ?_, hsuite.append hsuite'⟩
  rw [textAt_append]
  exact hyields.append hyields'

/-- Blocks made for several things, in a row, have `Lays` if each of them has it. -/
theorem lays_flatMap {α : Type} {f : α → List Line} {xs : List α} (h : ∀ x ∈ xs, Lays (f x)) :
    Lays (xs.flatMap f) :=
  holds_flatMap lays_nil Lays.append h

/-- A blank line has `Lays`, as a block without statements at every level. -/
theorem lays_blank : Lays [{ text := [] }] := fun _ => ⟨[], yields_linefeed, .nil⟩

/-! ### Lines of code -/

/-- A line that is a statement of its own for `statement?`: it opens neither a list nor a block. -/
structure IsSimple (t : Text) : Prop where
  oneLine : OneLine t
  starts : Starts t
  ends : (t.getLast?.any fun c => c == '(' || c == ':') = false

/-- A line that opens a block: it ends with a colon, and a `Starts` text stands in front. -/
structure IsOpening (t : Text) : Prop where
  oneLine : OneLine t
  starts : Starts t
  ends : t.getLast? = some ':'

instance (t : Text) : Decidable (IsSimple t) :=
  decidable_of_iff
    (OneLine t ∧ Starts t ∧ (t.getLast?.any fun c => c == '(' || c == ':') = false)
    ⟨fun h => ⟨h.1, h.2.1, h.2.2⟩, fun h => ⟨h.oneLine, h.starts, h.ends⟩⟩

instance (t : Text) : Decidable (IsOpening t) :=
  decidable_of_iff (OneLine t ∧ Starts t ∧ t.getLast? = some ':')
    ⟨fun h => ⟨h.1, h.2.1, h.2.2⟩, fun h => ⟨h.oneLine, h.starts, h.ends⟩⟩

/-- A line made of a beginning and an end `IsSimple` by these two alone, whatever stands in the
middle, as long as it is one line. -/
theorem isSimple_append {s e : Text} (hone : OneLine (s ++ e)) (hstarts : Starts s)
    (hends : e ≠ [] ∧ (e.getLast?.any fun c => c == '(' || c == ':') = false) :
    IsSimple (s ++ e) :=
  ⟨hone, hstarts.append e, by rw [List.getLast?_append_of_ne_nil s hends.1]; exact hends.2⟩

/-- A line made of a beginning and an end `IsOpening` by these two alone, since only the colon at
the end makes it so. -/
theorem isOpening_append {s e : Text} (hone : OneLine (s ++ e)) (hstarts : Starts s)
    (hends : e.getLast? = some ':') : IsOpening (s ++ e) := by
  refine ⟨hone, hstarts.append e, ?_⟩
  rw [List.getLast?_append, hends]
  rfl

/-- A line that `IsSimple` fills a block, being one row of code at its indentation. -/
theorem fills_simple {t : Text} (h : IsSimple t) : Fills [{ text := t }] := by
  obtain ⟨c, rest, hcons, -⟩ := h.starts.exists_cons
  have hends := h.ends
  have hlast : t.getLast? ≠ some '(' ∧ t.getLast? ≠ some ':' := by
    constructor <;> intro heq <;> rw [heq] at hends <;> simp at hends
  intro level
  refine ⟨[⟨4 * level, t⟩], List.cons_ne_nil _ _, ?_, .simple ?_ .nil⟩
  · rw [textAt_singleton level (by simp [hcons])]
    exact yields_line _ h.oneLine h.starts hlast.1
  · show (t.getLast? == some ':') = false
    simpa using hlast.2

/-- Lines that are `IsSimple` at the margin of a block, one behind the other, are laid out. -/
theorem lays_of_forall {block : List Line}
    (h : ∀ line ∈ block, line.depth = 0 ∧ IsSimple line.text) : Lays block := by
  induction block with
  | nil => exact lays_nil
  | cons line block ih =>
    obtain ⟨hdepth, hsimple⟩ := h line List.mem_cons_self
    have hline : line = { text := line.text } := by
      cases line
      cases hdepth
      rfl
    have hrest := ih fun l hl => h l (List.mem_cons_of_mem line hl)
    rw [← List.singleton_append, hline]
    exact ((fills_simple hsimple).append hrest).lays

/-- A line that `IsOpening`, with a block below it, fills a block if the one below is filled. -/
theorem fills_compound {t : Text} {body : List Line} (h : IsOpening t) (hbody : Fills body) :
    Fills ({ text := t } :: deeper body) := by
  obtain ⟨c, rest, hcons, -⟩ := h.starts.exists_cons
  intro level
  obtain ⟨rs, hne, hyields, hsuite⟩ := hbody (level + 1)
  refine ⟨⟨4 * level, t⟩ :: (rs ++ []), List.cons_ne_nil _ _, ?_,
    .compound (by simp [Row.opens, h.ends]) hne hsuite .nil⟩
  rw [← List.singleton_append, textAt_append, textAt_deeper,
    textAt_singleton level (by simp [hcons]), List.append_nil]
  exact (yields_line _ h.oneLine h.starts (by simp [h.ends])).append hyields

/-! ### Docstrings -/

/-- A literal between triple quotes `Fills` a block as one statement, at any level, if nothing in it
is a triple quote or a backslash that would hide one. -/
theorem fills_literal {block : List Line} (body : Nat → Text) {value : Nat → Text}
    (htext : ∀ level, textAt level block =
      fill (4 * level) ' ' ++ (fill 3 '"' ++ body level ++ fill 3 '"') ++ ['\n'])
    (hclosed : ∀ level, TripleQuoted.Closed (body level))
    (hspells : ∀ level,
      Spells TripleQuoted.literalEscape? (fun c => [c]) (body level) (value level)) :
    Fills block := by
  intro level
  refine ⟨[⟨4 * level, fill 3 '"' ++ body level ++ fill 3 '"'⟩], List.cons_ne_nil _ _, ?_,
    .simple ?_ .nil⟩
  · rw [htext]
    exact yields_literal _ (hclosed level) (hspells level)
  · have hquote : (fill 3 '"').getLast? = some '"' := by decide
    show ((fill 3 '"' ++ body level ++ fill 3 '"').getLast? == some ':') = false
    rw [List.getLast?_append, hquote]
    rfl

/-- The `docstringBlock` of a method is one statement, whatever its lines are, because what would
end it is escaped. -/
theorem fills_docstringBlock (ls : List Text) : Fills (docstringBlock ls) := by
  refine fills_literal (fun level => docstringBody level ls) (fun level => ?_)
    (fun level => closed_docstringBody level ls) (fun level => spells_docstringBody level ls)
  have hvalue := Writer.value_docstringBlock { level := level } ls
  rw [Writer.value_eq, Writer.value_eq] at hvalue
  have htext : textAt level (docstringBlock ls) =
      ([] ++ (docstringBlock ls).map (Line.render level)).flatMap (· ++ ['\n']) := by
    rw [List.nil_append, List.flatMap_map]
    rfl
  rw [htext]
  exact hvalue

/-- The name that `Naming.method` gives for an identifier is `Inert` in a literal: it has no quote
and no backslash. -/
theorem inert_method {name : Text} (h : IsIdentifier name) :
    TripleQuoted.Inert (Naming.method name) := by
  intro c hc
  have hne : ∀ d : Char, ¬(d.isAlphanum ∨ d = '_' ∨ 128 ≤ d.toNat) → d.toNat < 97 → c ≠ d := by
    rintro d hd hlow rfl
    exact Naming.not_mem_method_of_isIdentifier h hd hlow hc
  have hreturn := hne '\r' (by decide) (by decide)
  have hnull := hne '\x00' (by decide) (by decide)
  refine ⟨hne '"' (by decide) (by decide), hne '\\' (by decide) (by decide), ?_⟩
  simp [TripleQuoted.mayStand, hreturn, hnull]

/-- The docstring of a named tuple `Fills` a block as one statement. -/
theorem fills_outputsDocstring {name : Text} (h : IsIdentifier name) :
    Fills [{ text := "\"\"\"Outputs of :meth:\x60" ++ Naming.method name ++ "\x60.\"\"\"" }] := by
  have hinert : TripleQuoted.Inert ("Outputs of :meth:\x60" ++ Naming.method name ++ "\x60.") :=
    TripleQuoted.inert_append.mpr
      ⟨TripleQuoted.inert_append.mpr ⟨by decide, inert_method h⟩, by decide⟩
  refine fills_literal _ (fun level => ?_) (fun _ => hinert.closed)
    (fun _ => spells_self hinert.not_mem)
  rw [textAt_singleton level (by simp)]
  simp [fill, List.replicate]

/-! ### The parts of a method -/

/-- A `parameter` begins a line of code if its name is not empty. -/
theorem starts_parameter {name : Text} (h : IsIdentifier name) (hne : name ≠ []) :
    Starts (parameter name) := by
  have hidentifier := Naming.isIdentifier_parameter h
  cases hparameter : parameter name with
  | nil => exact absurd hparameter (Naming.parameter_ne_nil hne)
  | cons c rest =>
    rw [hparameter] at hidentifier
    have hspace : c ≠ ' ' := by
      rintro rfl
      exact hidentifier.not_mem (by decide) List.mem_cons_self
    have hquote : c ≠ '"' := by
      rintro rfl
      exact hidentifier.not_mem (by decide) List.mem_cons_self
    simp [Starts, hspace, hquote]

/-- The statement of `newDescription` fills a block, being one simple line. -/
theorem fills_newDescription {name : Text} (h : Plain name) :
    Fills (Binding.newDescription name) := by
  have hstarts : Starts ("desc = OperationDescription(self, " : Text) := by decide
  exact fills_simple (isSimple_append (isCode_newDescription h _ List.mem_cons_self).oneLine
    (((hstarts.append _).append _).append _) (by decide))

/-- The statement of `addInput` fills a block, being one simple line. -/
theorem fills_addInput {expr : Text} (h : Plain expr) (isList : Bool) :
    Fills (Binding.addInput expr isList) := by
  have hone := (isCode_addInput h isList _ List.mem_cons_self).oneLine
  refine fills_simple (isSimple_append hone (Starts.append ?_ _) (by decide))
  cases isList <;> decide

/-- The loop of `addControlInputs` is a line that opens a block and the block below it. -/
theorem fills_addControlInputs : Fills Binding.addControlInputs := by
  have hloop : IsOpening "for control in self.control_dependencies:" := by decide
  have hcall : IsSimple "desc.add_control_input(control)" := by decide
  exact fills_compound hloop (fills_simple hcall)

/-- The statement of `setAttribute` fills a block, under every binding. -/
theorem fills_setAttribute {table : TypeTable} {b : Binding} {operation : Text} {a : Attribute}
    {expr : Text} {block : List Line} (ha : Plain a.name) (hexpr : Plain expr)
    (h : b.setAttribute table operation a expr = .ok block) : Fills block := by
  have hcode := isCode_setAttribute ha hexpr h
  rw [Binding.setAttribute] at h
  -- Under the typed binding, the statement is there only if the annotation has a setter.
  split at h
  · cases h
  · next element isList _ =>
    obtain ⟨call, hcall, rfl⟩ := (map_eq_ok_iff _ _ _).mp h
    have hone : OneLine call := (hcode _ List.mem_cons_self).oneLine
    refine fills_simple ?_
    cases b with
    | base => cases hcall
    | graph =>
      cases hcall
      have hstarts : Starts ("desc.set_attr(" : Text) := by decide
      exact isSimple_append hone (((hstarts.append _).append _).append _) (by decide)
    | typed =>
      rw [Binding.setterCall] at hcall
      split at hcall
      · cases hcall
      · cases hcall
        have hstarts : Starts ("desc.set_attr_" : Text) := by decide
        exact isSimple_append hone
          (((((hstarts.append _).append _).append _).append _).append _) (by decide)

/-- The statements of `finishOperation` fill a block, in either order of the two lines that open
one. -/
theorem fills_finishOperation {b : Binding} {operation : Text} {block : List Line}
    (hop : Plain operation) (h : b.finishOperation operation = .ok block) : Fills block := by
  have hfinish : IsSimple "op = desc.finish_operation(status)" := by decide
  have hraise : Fills [Binding.raiseCreateError operation] := by
    have hstarts : Starts ("raise OpCreateError(" : Text) := by decide
    have hone : OneLine (Binding.raiseCreateError operation).text := by
      have hbetween := oneLine_between (by decide : Plain "raise OpCreateError(") hop
        (by decide : Plain ", status.message)")
      simpa [Binding.raiseCreateError] using hbetween
    exact fills_simple (isSimple_append hone (hstarts.append _) (by decide))
  -- The graph binding asks for the status in front, the typed one opens a block for it, so the two
  -- are laid out apart.
  cases b with
  | base => cases h
  | graph =>
    cases h
    have hstatus : IsSimple "status = Status()" := by decide
    have hcheck : IsOpening "if not status.ok:" := by decide
    have hrest := (fills_simple hfinish).append (fills_compound hcheck hraise).lays
    exact (fills_simple hstatus).append hrest.lays
  | typed =>
    cases h
    have hwith : IsOpening "with Status() as status:" := by decide
    have hcheck : IsOpening "if status.error:" := by decide
    exact fills_compound hwith ((fills_simple hfinish).append (fills_compound hcheck hraise).lays)

namespace Operation

variable {table : TypeTable} {b : Binding} {op : Operation} {doc : Documentation}

/-- The statements of `settersBlock` are laid out. An optional attribute is set below a line that
opens a block. -/
theorem lays_settersBlock {setters : List Line} (hnames : op.WellNamed)
    (h : op.settersBlock table b = .ok setters) : Lays setters := by
  simp only [settersBlock, bind_eq_ok_iff] at h
  obtain ⟨required, hrequired, optional, hoptional, h⟩ := h
  cases h
  have hset : ∀ a ∈ op.givenAttributes, ∀ block,
      b.setAttribute table op.name a (parameter a.name) = .ok block → Fills block := by
    intro a ha block hblock
    have hname := hnames.plain_given ha
    exact fills_setAttribute hname (plain_parameter hname) hblock
  -- Every setter fills a block of its own, so any number of them lie side by side.
  have hflatten : ∀ {blocks : List (List Line)}, (∀ block ∈ blocks, Fills block) →
      Lays blocks.flatten := by
    intro blocks hblocks
    rw [← List.flatMap_id]
    exact lays_flatMap fun block hblock => (hblocks block hblock).lays
  refine (hflatten fun block hblock => ?_).append (hflatten fun block hblock => ?_)
  · obtain ⟨a, ha, hblock⟩ := exists_of_mem_mapM hrequired hblock
    exact hset a (List.mem_filter.mp ha).1 block hblock
  · obtain ⟨a, ha, hblock⟩ := exists_of_mem_mapM hoptional hblock
    have ha := (List.mem_filter.mp ha).1
    obtain ⟨setter, hsetter, hblock⟩ := (bind_eq_ok_iff _ _ _).mp hblock
    cases hblock
    have hguard : IsOpening ("if " ++ parameter a.name ++ " is not None:" : Text) := by
      have hstarts : Starts ("if " : Text) := by decide
      have hplain : Plain ("if " ++ parameter a.name ++ " is not None:" : Text) := by
        simp [plain_parameter (hnames.plain_given ha)]
      exact isOpening_append hplain.oneLine (hstarts.append _) (by decide)
    exact fills_compound hguard (hset a ha setter hsetter)

/-- The statements of `outputsBlock` are laid out, also where there are none. -/
theorem lays_outputsBlock (hnames : op.WellNamed) (hne : ∀ a ∈ op.outputs, a.name ≠ []) :
    Lays op.outputsBlock := by
  have hcode := isCode_outputsBlock hnames
  rw [outputsBlock] at hcode ⊢
  split at hcode
  · next hnone =>
    rw [if_pos hnone]
    exact lays_nil
  · next hsome =>
    rw [if_neg hsome]
    -- Each statement is a line of code by itself, so nothing has to be known about its neighbours.
    refine lays_of_forall fun line hline => ?_
    have hone := (hcode line hline).oneLine
    rcases List.mem_cons.mp hline with rfl | hline
    · exact ⟨rfl, hone, by decide, by decide⟩
    · obtain ⟨a, ha, hline⟩ := List.mem_flatMap.mp hline
      have hstarts := starts_parameter (hnames.outputs a ha) (hne a ha)
      have hlength : Starts ("_n = op.get_output_list_length(" : Text) := by decide
      rw [bindOutput] at hline
      split at hline
      · simp only [List.mem_cons, List.not_mem_nil, or_false] at hline
        rcases hline with rfl | rfl | rfl
        · exact ⟨rfl, isSimple_append hone (hlength.append _) (by decide)⟩
        · exact ⟨rfl, isSimple_append hone hstarts (by decide)⟩
        · exact ⟨rfl, hone, by decide, by decide⟩
      · simp only [List.mem_cons, List.not_mem_nil, or_false] at hline
        rcases hline with rfl | rfl
        · exact ⟨rfl, isSimple_append hone hstarts (by decide)⟩
        · exact ⟨rfl, hone, by decide, by decide⟩

/-- The `returnLine` fills a block, so a method has a statement at its end in any case. -/
theorem fills_returnLine (hnames : op.WellNamed) : Fills [op.returnLine] := by
  have hone := (plain_returnLine hnames).oneLine
  rw [returnLine] at hone ⊢
  split at hone
  · exact fills_simple ⟨hone, by decide, by decide⟩
  · next a hout =>
    have hidentifier := Naming.isIdentifier_parameter (hnames.outputs a (by simp [hout]))
    have hstarts : Starts ("return " : Text) := by decide
    refine fills_simple ⟨hone, hstarts.append _, ?_⟩
    -- A statement that ended in a bracket or a colon would open something. The variable is an
    -- identifier and holds neither.
    have hopen : '(' ∉ "return " ++ parameter a.name := by
      rw [List.mem_append, not_or]
      exact ⟨by decide, hidentifier.not_mem (by decide)⟩
    have hcolon : ':' ∉ "return " ++ parameter a.name := by
      rw [List.mem_append, not_or]
      exact ⟨by decide, hidentifier.not_mem (by decide)⟩
    cases hlast : ("return " ++ parameter a.name).getLast? with
    | none => rfl
    | some c =>
      have hmem := List.mem_of_getLast? hlast
      have hneOpen : c ≠ '(' := fun heq => hopen (heq ▸ hmem)
      have hneColon : c ≠ ':' := fun heq => hcolon (heq ▸ hmem)
      simp [hneOpen, hneColon]
  · have hstarts : Starts ("return self." : Text) := by decide
    exact fills_simple (isSimple_append hone ((hstarts.append _).append _) (by decide))

/-- The `outputsClassBlock`, if there is one, is a line that opens a block, with the docstring and
the fields below it. -/
theorem lays_outputsClassBlock (hnames : op.WellNamed) (hne : ∀ a ∈ op.outputs, a.name ≠ []) :
    Lays op.outputsClassBlock := by
  rw [outputsClassBlock]
  split
  · exact lays_nil
  · exact lays_nil
  · have hopening : IsOpening ("class " ++ op.outputsClass ++ "(NamedTuple):" : Text) := by
      have hstarts : Starts ("class " : Text) := by decide
      have hplain : Plain ("class " ++ op.outputsClass ++ "(NamedTuple):" : Text) := by
        simp [outputsClass, hnames.name.plain]
      exact isOpening_append hplain.oneLine (hstarts.append _) (by decide)
    have hfields : Lays
        (op.outputs.map fun a => { text := parameter a.name ++ ": " ++ a.typeHint }) := by
      refine lays_of_forall fun line hline => ?_
      obtain ⟨a, ha, rfl⟩ := List.mem_map.mp hline
      have hplain : Plain (parameter a.name ++ ": " ++ a.typeHint) := by
        simp [plain_parameter (hnames.outputs a ha).plain, plain_typeHint]
      -- A field begins with its variable, and its annotation opens nothing.
      have hstarts := starts_parameter (hnames.outputs a ha) (hne a ha)
      refine ⟨rfl, isSimple_append hplain.oneLine (hstarts.append _) ?_⟩
      rw [Argument.typeHint]
      cases a.isList <;> decide
    exact (fills_compound hopening ((fills_outputsDocstring hnames.name).append hfields)).lays

/-- The line `def` of a method opens a block, as its parameters hold neither quotes nor line feeds.
-/
theorem isOpening_defLine {params : List Text} (hnames : op.WellNamed)
    (h : ∀ param ∈ params, Plain param) : IsOpening (op.defLine params).text := by
  have hstarts : Starts ("def " : Text) := by decide
  refine isOpening_append (isCode_defLine hnames h).oneLine ?_ (by decide)
  exact (((hstarts.append _).append _).append _).append _

/-- The `block` of a method, with the named tuple of its outputs in front, is laid out. Its parts
are laid out by the lemmas above, in their order. -/
theorem lays_method {p : Pieces} (htable : table.IsPlain) (hnames : op.WellNamed)
    (hne : ∀ a ∈ op.outputs, a.name ≠ []) (h : op.pieces table b doc = .ok p) :
    Lays (p.block op) := by
  obtain ⟨hparams, -, hsetters, hfinish⟩ := (pieces_eq_ok_iff table b op doc p).mp h
  have hinputs : Lays
      (op.inputs.flatMap fun a => Binding.addInput (parameter a.name) a.isList) :=
    lays_flatMap fun a ha =>
      (fills_addInput (plain_parameter (hnames.inputs a ha).plain) a.isList).lays
  have hbody : Lays (p.body op) :=
    (fills_newDescription hnames.name.plain).lays.append <|
      hinputs.append <| fills_addControlInputs.lays.append <|
        (lays_settersBlock hnames hsetters).append <|
          (fills_finishOperation hnames.name.plain hfinish).lays.append <|
            (lays_outputsBlock hnames hne).append (fills_returnLine hnames).lays
  have hopening := isOpening_defLine hnames (plain_of_mem_signatureParams htable hnames hparams)
  -- The docstring alone keeps the block below that line from being empty.
  have hmethod := fills_compound hopening ((fills_docstringBlock p.docLines).append hbody)
  rw [deeper_append] at hmethod
  exact (lays_outputsClassBlock hnames hne).append hmethod.lays

end Operation

/-! ### The parts of a module -/

/-- A character in the `textAt` a level is a space, a line feed or one of the lines' own. -/
theorem mem_textAt {level : Nat} {block : List Line} {c : Char} (h : c ∈ textAt level block) :
    c = ' ' ∨ c = '\n' ∨ ∃ line ∈ block, c ∈ line.text := by
  obtain ⟨line, hline, hc⟩ := List.mem_flatMap.mp h
  rcases List.mem_append.mp hc with hc | hc
  · rw [Line.render, indented] at hc
    split at hc
    · cases hc
    · rcases List.mem_append.mp hc with hc | hc
      · exact .inl (List.eq_of_mem_replicate hc)
      · exact .inr (.inr ⟨line, hline, hc⟩)
  · exact .inr (.inl (List.mem_singleton.mp hc))

/-- At the margin `textAt` writes lines as they are, with a line feed behind each. -/
theorem textAt_margin (ts : List Text) :
    textAt 0 (ts.map fun t => { text := t }) = ts.flatMap (· ++ ['\n']) := by
  rw [textAt, List.flatMap_map]
  refine List.flatMap_congr fun t _ => ?_
  cases t <;> rfl

/-- At the margin a list in brackets is laid out by `LaysAt` as one statement, with the line that
opens it. -/
theorem laysAt_list {line : Text} {ls : List Text} (hone : OneLine line) (hstarts : Starts line)
    (hend : line.getLast? = some '(') (hne : ls ≠ [])
    (h : ∀ l ∈ ls, OneLine l ∧ (l.head?.any fun c => c != ')') = true) :
    LaysAt 0 (([line] ++ ls ++ [[')']]).map fun t => { text := t }) := by
  have hyields := yields_list 0 hone hstarts hend (throughClosing?_lines hne h)
  refine ⟨[⟨0, line ++ '\n' :: (ls.flatMap (· ++ ['\n']) ++ [')'])⟩], ?_, .simple ?_ .nil⟩
  · rw [textAt_margin, List.flatMap_append, List.flatMap_append, List.append_assoc]
    simpa [fill] using hyields
  · show ((line ++ '\n' :: (ls.flatMap (· ++ ['\n']) ++ [')'])).getLast? == some ':') = false
    rw [← List.cons_append, ← List.append_assoc, List.getLast?_concat]
    rfl

/-- The `importLines` are two statements and the list of what the runtime is to have. -/
theorem laysAt_importLines (b : Binding) :
    LaysAt 0 (b.importLines.map fun t => { text := t }) := by
  have hfuture : IsSimple "from __future__ import annotations" := by decide
  have htyping : IsSimple "from typing import NamedTuple" := by decide
  have hfirst := ((fills_simple hfuture).append lays_blank).lays.append
    ((fills_simple htyping).append lays_blank).lays
  have hline : OneLine ("from " ++ b.runtimeModule ++ " import (" : Text) ∧
      Starts ("from " ++ b.runtimeModule ++ " import (" : Text) ∧
      ("from " ++ b.runtimeModule ++ " import (" : Text).getLast? = some '(' := by
    cases b <;> decide
  have hnames : ∀ l ∈ Binding.runtimeNames.map (fun name => indentUnit ++ name ++ [',']),
      Plain l ∧ (l.head?.any fun c => c != ')') = true := by decide
  -- The bracket that closes the list stands at the margin, so this is about level zero only.
  exact (hfirst 0).append (laysAt_list hline.1 hline.2.1 hline.2.2 (by decide)
    fun l hl => ⟨(hnames l hl).1.oneLine, (hnames l hl).2⟩)

/-- Lines between triple quotes, nothing in which has a meaning of its own, have `Fills` as one
statement. -/
theorem fills_prose {first : Text} {rest : List Text}
    (h : ∀ t ∈ first :: rest, TripleQuoted.Inert t) :
    Fills (((tripleQuote ++ first) :: rest ++ [tripleQuote]).map fun t => { text := t }) := by
  have hspace : TripleQuoted.Inert [' '] := by decide
  have hfeed : TripleQuoted.Inert ['\n'] := by decide
  have hrest : ∀ level, TripleQuoted.Inert (textAt level (rest.map fun t => { text := t })) := by
    intro level c hc
    rcases mem_textAt hc with rfl | rfl | ⟨line, hline, hc⟩
    · exact hspace _ List.mem_cons_self
    · exact hfeed _ List.mem_cons_self
    · obtain ⟨t, ht, rfl⟩ := List.mem_map.mp hline
      exact h t (List.mem_cons_of_mem first ht) c hc
  have hindentation : ∀ level, TripleQuoted.Inert (fill (4 * level) ' ') := by
    intro level c hc
    rw [List.eq_of_mem_replicate hc]
    exact hspace _ List.mem_cons_self
  -- What stands between the quotes is inert whatever level the lines are put at, the line feeds and
  -- blanks among it included.
  have hbody : ∀ level, TripleQuoted.Inert (first ++ (['\n'] ++
      (textAt level (rest.map fun t => { text := t }) ++ fill (4 * level) ' '))) := by
    intro level
    simp only [TripleQuoted.inert_append]
    exact ⟨h first List.mem_cons_self, hfeed, hrest level, hindentation level⟩
  refine fills_literal _ (fun level => ?_) (fun level => (hbody level).closed)
    (fun level => spells_self (hbody level).not_mem)
  have hquote : tripleQuote ≠ [] := by decide
  rw [List.cons_append, List.map_cons, List.map_append, ← List.singleton_append, textAt_append,
    textAt_append, textAt_singleton level (by simp [hquote])]
  show _ ++ (_ ++ textAt level [{ text := tripleQuote }]) = _
  rw [textAt_singleton level hquote]
  simp [tripleQuote]

/-- The class, a `containerOpening` with the methods below it, fills a block, also where there is no
method. -/
theorem fills_container {blocks : List (List Line)} (h : ∀ block ∈ blocks, Lays block) :
    Fills (containerOpening ++ deeper blocks.flatten) := by
  have hopening : IsOpening ("class " ++ containerName ++ [':']) := by decide
  have hblocks : Lays blocks.flatten := by
    rw [← List.flatMap_id]
    exact lays_flatMap h
  -- The fixed docstring is checked line by line, each literal through its list of code points.
  have hprose : ∀ t ∈ containerDocstring, TripleQuoted.Inert t := by
    simp only [containerDocstring, List.forall_mem_cons]
    refine ⟨of_literal TripleQuoted.Inert ?_, of_literal TripleQuoted.Inert ?_,
      of_literal TripleQuoted.Inert ?_, of_literal TripleQuoted.Inert ?_,
      of_literal TripleQuoted.Inert ?_, of_literal TripleQuoted.Inert ?_,
      List.forall_mem_nil _⟩ <;> decide
  have hclass := fills_compound hopening ((fills_prose hprose).append hblocks)
  rw [Operation.deeper_append] at hclass
  exact hclass

/-- The text of a module is `textAt` the margin of its lines. -/
theorem moduleCode_eq (b : Binding) (blocks : List (List Line)) :
    moduleCode b blocks = textAt 0 (moduleLines b blocks) := by
  rw [moduleCode, unlines_linefeed (by simp [moduleLines, containerOpening]), List.flatMap_map]
  rfl

/-- The last statement of a module: the list of its public names. -/
def publicNames : Text := "__all__ = [\"GraphOps\"]"

/-- Every module of `generateModule` is made of blocks: its statements follow each other as blocks
do, a statement that opens a block has another one right below it, and the last one, the list of
public names, stands at the margin. -/
theorem blockStructured_generateModule {table : TypeTable} {b : Binding} {ops : List Operation}
    {docs : Text → Option Documentation} {warnings : List Warning} {m : GeneratedModule}
    (htable : table.IsPlain) (hnames : ∀ op ∈ ops, op.WellNamed)
    (hne : ∀ op ∈ ops, ∀ a ∈ op.outputs, a.name ≠ [])
    (h : generateModule table b ops docs = (warnings, .ok m)) :
    ∃ rs, rows? m.code = some rs ∧ BlockStructured rs ∧
      (∀ before r after, rs = before ++ r :: after → r.opens →
        ∃ s rest, after = s :: rest ∧ s.column = r.column + 4) ∧
      rs.getLast? = some ⟨0, publicNames⟩ := by
  obtain ⟨written, hops, hwritten, -, hcode⟩ := written_of_generateModule table b docs h
  have hblocks : ∀ block ∈ writtenBlocks written, Lays block := by
    intro block hblock
    obtain ⟨w, hw, rfl⟩ := List.mem_map.mp hblock
    obtain ⟨doc, -, hpieces⟩ := hwritten w hw
    have hmem : w.1 ∈ written.map Prod.fst := List.mem_map_of_mem hw
    rw [hops] at hmem
    have hop := mem_of_mem_surfaced table docs hmem
    exact Operation.lays_method htable (hnames w.1 hop) (hne w.1 hop) hpieces
  obtain ⟨rs, hyields, hsuite⟩ := (laysAt_importLines b).append ((fills_container hblocks).lays 0)
  have hend : Yields (textAt 0 containerClosing) [⟨0, publicNames⟩] := by
    have hline := yields_line 0 (t := publicNames) (by decide) (by decide) (by decide)
    exact yields_linefeed.append (yields_linefeed.append hline)
  have hall : Yields m.code (rs ++ [⟨0, publicNames⟩]) := by
    rw [hcode, moduleCode_eq, moduleLines, textAt_append, List.append_assoc (b.importLines.map _)]
    exact hyields.append hend
  have hlast : Suite 0 [⟨0, publicNames⟩] := .simple (by decide) .nil
  -- Nothing stands before the first statement, so it may stand at the margin only, and does.
  have hlaid := ((hsuite.append hlast).laidOut [] rfl).1
  have hends : (rs ++ [Row.mk 0 publicNames]).getLast? = some ⟨0, publicNames⟩ :=
    List.getLast?_concat
  have hblocks : BlockStructured (rs ++ [⟨0, publicNames⟩]) :=
    ⟨hlaid, ⟨0, publicNames⟩, Option.mem_def.mpr hends, rfl, by decide⟩
  exact ⟨_, hall.rows?_eq, hblocks, fun _ _ _ hplace => hblocks.opened hplace, hends⟩

namespace Sample

/-- An operation with several outputs and an optional attribute. -/
def cleave : Operation where
  name := "Cleave"
  inputs := [{ name := "value", typeAttr := "T" }]
  outputs := [{ name := "head" }, { name := "out", numberAttr := "N" }]
  attributes :=
    [{ name := "T", tag := "type" }, { name := "N", tag := "int" },
      { name := "exact", tag := "bool", hasDefault := true, defaultValue := .bool true }]

/-- Documentation for it that looks like code, with a line that ends like an opening and a triple
quote. -/
def cleaveDocs (name : Text) : Option Documentation :=
  some { name := name, summary := "Cleaves:\n        if exact:\n  \"\"\"" }

end Sample

/-- The module of `Cleave` is made of blocks, for all that its docstring looks like. -/
theorem blockStructured_generateModule_cleave :
    ∃ m rs, generateModule TypeTable.standard .typed [Sample.cleave] Sample.cleaveDocs =
        ([], .ok m) ∧
      m.report.emitted = ["Cleave".toList] ∧ rows? m.code = some rs ∧ BlockStructured rs ∧
      rs.getLast? = some ⟨0, publicNames⟩ := by
  obtain ⟨m, hrun, hemitted⟩ : ∃ m,
      generateModule TypeTable.standard .typed [Sample.cleave] Sample.cleaveDocs = ([], .ok m) ∧
        m.report.emitted = ["Cleave".toList] := by
    have hsorted : sortedByName [Sample.cleave] = [Sample.cleave] := by simp [sortedByName]
    rw [generateModule, hsorted]
    exact ⟨_, rfl, rfl⟩
  have hnames : ∀ op ∈ [Sample.cleave], op.WellNamed := by
    intro op hop
    rw [List.mem_singleton.mp hop]
    exact ⟨by decide, by decide, by decide, by decide⟩
  have hne : ∀ op ∈ [Sample.cleave], ∀ a ∈ op.outputs, a.name ≠ [] := by decide
  obtain ⟨rs, hrows, hblocks, -, hlast⟩ :=
    blockStructured_generateModule TypeTable.standard_isPlain hnames hne hrun
  exact ⟨m, rs, hrun, hemitted, hrows, hblocks, hlast⟩

end TypedOps
