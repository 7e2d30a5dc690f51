import TypedOps.Proofs.Emit.Marks
import TypedOps.Proofs.Support.Lists

/-!
# `TypedOps.Proofs.Emit.MethodNames`: which names the methods of a class have

The name of a method is that of its operation in snake case, which keeps less than the
operation's name does: where a word begins, but not how that is written. `Naming.words` reads a
name as its words in lower case, and `Naming.SameMethod` says in the open which names come to
one method: those with the same words, and a keyword beside the same word with a low line.

* `Naming.words_eq_splitOn`: the words are what snake case writes between low lines.
* `Naming.method_eq_method_iff`: two operations get one method name just when `SameMethod` says
  so.
* `methodNames_generateModule`: the names of the methods, read off the text of a module.
* `nodup_methodNames_iff`: so every operation is reached by the name of its method just when no
  two emitted names come to one method. No method is called as a keyword or as the tuple of some
  outputs is; one is called as a member that the bodies use just when an operation has its words.
-/

set_option autoImplicit false

namespace TypedOps

open Text

namespace Naming

/-! ### Words -/

/-- The words of a name from a place in it on, with the code point before. A low line ends a word,
and so does the place in front of a letter that starts one (`startsWord`). -/
def wordsFrom (before : Option Char) : Text → List Text
  | [] => [[]]
  | c :: rest =>
    if c = '_' then [] :: wordsFrom (some c) rest
    else
      let here := inFront (lowered c) (wordsFrom (some c) rest)
      if startsWord before c rest.head? then [] :: here else here

/-- The words of a name, in lower case. They are what `Naming.method` joins. -/
def words (name : Text) : List Text := wordsFrom none name

/-- A `lowered` character other than the low line is not made of low lines, so it can end no word.
-/
theorem low_line_not_mem_lowered {c : Char} (h : c ≠ '_') : '_' ∉ lowered c := fun hmem =>
  h (eq_of_mem_lowered hmem (by decide)).symm

/-- From any place on, the words are what `snakeCaseFrom` writes between low lines. -/
theorem wordsFrom_eq_splitOn (before : Option Char) (name : Text) :
    wordsFrom before name = splitOn '_' (snakeCaseFrom before name) := by
  -- The code point before decides where a word starts, so it varies in the induction.
  induction name generalizing before with
  | nil => rfl
  | cons c rest ih =>
    by_cases hc : c = '_'
    · subst hc
      have hstart : startsWord before '_' rest.head? = false := by
        cases before <;> simp [startsWord, isUpper]
      have hlow : lowered '_' = ['_'] := by decide
      rw [wordsFrom, if_pos rfl, snakeCaseFrom, hstart, hlow, ih]
      rfl
    · have hhere : splitOn '_' (lowered c ++ snakeCaseFrom (some c) rest) =
          inFront (lowered c) (wordsFrom (some c) rest) := by
        rw [splitOn_append (low_line_not_mem_lowered hc), ih]
      rw [wordsFrom, if_neg hc, snakeCaseFrom, List.append_assoc]
      show (if startsWord before c rest.head? then
          [] :: inFront (lowered c) (wordsFrom (some c) rest)
        else inFront (lowered c) (wordsFrom (some c) rest)) = _
      rw [← hhere]
      split
      · show _ = splitOn '_' ('_' :: (lowered c ++ snakeCaseFrom (some c) rest))
        rw [splitOn, if_pos rfl]
      · rfl

/-- The words of a name are what `snakeCase` writes between low lines. -/
theorem words_eq_splitOn (name : Text) : words name = splitOn '_' (snakeCase name) :=
  wordsFrom_eq_splitOn none name

/-- A name has the `words` of a text, cut at its low lines, just when the text is the name in snake
case. -/
theorem words_eq_splitOn_iff (name t : Text) : words name = splitOn '_' t ↔ snakeCase name = t := by
  rw [words_eq_splitOn]
  constructor
  · intro h
    rw [← join_splitOn '_' (snakeCase name), h, join_splitOn]
  · intro h
    rw [h]

/-- Two names have the same `words` just when they have the same `snakeCase` form. -/
theorem words_eq_words_iff (s t : Text) : words s = words t ↔ snakeCase s = snakeCase t := by
  rw [words_eq_splitOn t]
  exact words_eq_splitOn_iff s (snakeCase t)

/-! ### Names that come to one method -/

/-- The name `s` is a keyword in lower case, and `t` is the same with a low line behind it. -/
def Escaped (s t : Text) : Prop := ∃ k ∈ keywords, words s = [k] ∧ words t = [k, []]

instance (s t : Text) : Decidable (Escaped s t) :=
  inferInstanceAs (Decidable (∃ k ∈ keywords, words s = [k] ∧ words t = [k, []]))

/-- Two names come to one method: they have the same words, or one of them is `Escaped` to the
other. -/
def SameMethod (s t : Text) : Prop := words s = words t ∨ Escaped s t ∨ Escaped t s

instance (s t : Text) : Decidable (SameMethod s t) :=
  inferInstanceAs (Decidable (words s = words t ∨ Escaped s t ∨ Escaped t s))

/-- None of the `keywords` has a low line in it. -/
theorem low_line_not_mem_keyword : ∀ k ∈ keywords, '_' ∉ k := by
  decide +kernel

/-- A keyword is one word for `splitOn`, when it is cut at low lines. -/
theorem splitOn_keyword {k : Text} (h : k ∈ keywords) : splitOn '_' k = [k] :=
  splitOn_of_not_mem (low_line_not_mem_keyword k h)

/-- A keyword with a low line behind it is one word and an empty one for `splitOn`. -/
theorem splitOn_escaped {k : Text} (h : k ∈ keywords) : splitOn '_' (k ++ ['_']) = [k, []] :=
  splitOn_append_cons (low_line_not_mem_keyword k h) []

/-- With a low line behind it, a text is none of the `keywords`, whether or not it was one. -/
theorem escaped_not_mem_keywords (k : Text) : k ++ ['_'] ∉ keywords := fun hmem =>
  low_line_not_mem_keyword _ hmem (by simp)

/-- A name is `Escaped` to another just when it is a keyword in snake case, and the other is this
keyword with a low line behind it. -/
theorem escaped_iff (s t : Text) :
    Escaped s t ↔ snakeCase s ∈ keywords ∧ snakeCase t = snakeCase s ++ ['_'] := by
  constructor
  · rintro ⟨k, hk, hs, ht⟩
    rw [← splitOn_keyword hk, words_eq_splitOn_iff] at hs
    rw [← splitOn_escaped hk, words_eq_splitOn_iff] at ht
    rw [hs, ht]
    exact ⟨hk, rfl⟩
  · rintro ⟨hk, ht⟩
    refine ⟨snakeCase s, hk, ?_, ?_⟩
    · rw [words_eq_splitOn, splitOn_keyword hk]
    · rw [words_eq_splitOn, ht, splitOn_escaped hk]

/-- The two cases of `method`: a keyword in snake case gets a low line behind it, and anything else
stays. -/
theorem method_cases (name : Text) :
    snakeCase name ∈ keywords ∧ method name = snakeCase name ++ ['_'] ∨
      snakeCase name ∉ keywords ∧ method name = snakeCase name := by
  rw [method]
  split
  · next h => exact .inl ⟨List.contains_iff_mem.mp h, rfl⟩
  · next h => exact .inr ⟨fun hmem => h (List.contains_iff_mem.mpr hmem), rfl⟩

/-- Two operations get one method name just when `SameMethod` holds of their names. -/
theorem method_eq_method_iff (s t : Text) : method s = method t ↔ SameMethod s t := by
  rw [SameMethod, words_eq_words_iff, escaped_iff, escaped_iff]
  -- Whether a name is a keyword decides if a low line goes behind it, so there are four cases.
  rcases method_cases s with ⟨hs, hms⟩ | ⟨hs, hms⟩ <;>
    rcases method_cases t with ⟨ht, hmt⟩ | ⟨ht, hmt⟩ <;> rw [hms, hmt]
  · -- Two keywords: neither is the other with a low line behind it.
    have hother : ∀ k, ∀ l ∈ keywords, l ≠ k ++ ['_'] := by
      rintro k l hl rfl
      exact escaped_not_mem_keywords k hl
    rw [List.append_left_inj]
    constructor
    · exact .inl
    · rintro (h | ⟨-, h⟩ | ⟨-, h⟩)
      · exact h
      · exact absurd h (hother _ _ ht)
      · exact absurd h (hother _ _ hs)
  -- One of the two is a keyword, and the other one would have to be it with a low line.
  · constructor
    · exact fun h => .inr (.inl ⟨hs, h.symm⟩)
    · rintro (h | ⟨-, h⟩ | ⟨h, -⟩)
      · exact absurd (h ▸ hs) ht
      · exact h.symm
      · exact absurd h ht
  · constructor
    · exact fun h => .inr (.inr ⟨ht, h⟩)
    · rintro (h | ⟨h, -⟩ | ⟨-, h⟩)
      · exact absurd (h ▸ ht) hs
      · exact absurd h hs
      · exact h
  · constructor
    · exact .inl
    · rintro (h | ⟨h, -⟩ | ⟨h, -⟩)
      · exact h
      · exact absurd h hs
      · exact absurd h ht

/-- No `method` is called as a keyword is, since it would have got a low line. -/
theorem method_not_mem_keywords (name : Text) : method name ∉ keywords := by
  rcases method_cases name with ⟨hk, h⟩ | ⟨hk, h⟩ <;> rw [h]
  · exact escaped_not_mem_keywords _
  · exact hk

/-- A text without a low line at its end, and no keyword, is what `method` gives for a name just
when it has the `words` of the name. -/
theorem method_eq_iff {t : Text} (hend : t.getLast? ≠ some '_') (hfree : t ∉ keywords)
    (name : Text) : method name = t ↔ words name = splitOn '_' t := by
  rw [words_eq_splitOn_iff]
  rcases method_cases name with ⟨hk, h⟩ | ⟨-, h⟩ <;> rw [h]
  constructor
  · rintro rfl
    simp at hend
  · rintro rfl
    exact absurd hk hfree

/-- The name that `method` gives holds no capital of ASCII, and so differs from the name of any
tuple of outputs. -/
theorem not_mem_method_of_capital {c : Char} (h : 65 ≤ c.toNat ∧ c.toNat ≤ 90) (name : Text) :
    c ∉ method name := by
  intro hmem
  rcases mem_method hmem with rfl | ⟨d, -, hlow⟩
  · exact absurd h (by decide)
  · rcases mem_lowered hlow with ⟨rfl, hsmall⟩ | hletter
    · exact hsmall h
    · omega

end Naming

open Naming (method words SameMethod)
open Operation (Pieces methodLines)

/-! ### The methods of a module -/

/-- The name that the opening line of a method gives it: what stands between `def` and the bracket.
-/
def openedName? (t : Text) : Option Text :=
  (afterStart? "def " t).map fun rest => rest.takeWhile (· != '(')

/-- The name of a method of the class that a line of a module opens, if it opens one: behind one
`indentUnit` it begins like a method. -/
def declaredMethod? (line : Text) : Option Text := (afterStart? indentUnit line).bind openedName?

/-- The names of the methods of the class, read off the text of a module by `declaredMethod?`. -/
def methodNames (code : Text) : List Text := (lines code).filterMap declaredMethod?

/-- The names of the methods that a block of the class opens, read off its `methodLines`. -/
def openedNames (block : List Line) : List Text :=
  (methodLines block).filterMap fun line => openedName? line.text

/-- A line inside the class opens a method for `declaredMethod?` just when it does in its block at
depth zero. -/
theorem declaredMethod?_render (line : Line) :
    declaredMethod? (line.render 1) = if line.depth = 0 then openedName? line.text else none := by
  obtain ⟨depth, text⟩ := line
  cases text with
  | nil => simp [declaredMethod?, Line.render, indented, indentUnit, openedName?, afterStart?]
  | cons c text =>
    cases depth with
    | zero => exact congrArg (Option.bind · openedName?) (afterStart?_append indentUnit (c :: text))
    | succ depth =>
      -- Behind the first level stands at least one more.
      have hlevel : ((1 : Int) + ((depth + 1 : Nat) : Int)).toNat = depth + 2 := by omega
      have htext : Line.render 1 ⟨depth + 1, c :: text⟩ =
          indentUnit ++ (' ' :: (fill (4 * depth + 3) ' ' ++ c :: text)) := by
        show fill (4 * ((1 : Int) + ((depth + 1 : Nat) : Int)).toNat) ' ' ++ c :: text = _
        rw [hlevel]
        rfl
      rw [declaredMethod?, htext, afterStart?_append]
      rfl

/-- The methods that the lines of a block open inside the class are its `openedNames`. -/
theorem filterMap_declaredMethod? (block : List Line) :
    (block.map (Line.render 1)).filterMap declaredMethod? = openedNames block := by
  rw [openedNames, methodLines, List.filterMap_filter, List.filterMap_map]
  refine List.filterMap_congr fun line _ => ?_
  rw [Function.comp_apply, declaredMethod?_render]
  by_cases hdepth : line.depth = 0
  · rw [if_pos hdepth, hdepth, beq_self_eq_true, Bool.true_and]
    -- A line that does not begin as an opening one does has no name to give.
    cases hrest : afterStart? "def " line.text with
    | none => rw [openedName?, Text.startsWith, hrest]; rfl
    | some rest => rw [openedName?, Text.startsWith, hrest]; rfl
  · rw [if_neg hdepth, beq_false_of_ne hdepth, Bool.false_and, if_neg Bool.false_ne_true]

/-- The `openedNames` of the block of a method are one, the name of the method for the operation. -/
theorem openedNames_block {op : Operation} (hname : IsIdentifier op.name) (p : Pieces) :
    openedNames (p.block op) = [method op.name] := by
  have hbracket : '(' ∉ method op.name :=
    Naming.not_mem_method_of_isIdentifier hname (by decide) (by decide)
  have hline : openedName? (op.defLine p.params).text = some (method op.name) := by
    have htext : (op.defLine p.params).text = "def " ++ (method op.name ++
        '(' :: (join ", " p.params ++ ") -> " ++ op.returnHint ++ [':'])) := by
      simp [Operation.defLine]
    rw [openedName?, htext, afterStart?_append, Option.map_some, takeWhile_append_cons hbracket]
  rw [openedNames, Operation.methodLines_block, List.filterMap_cons, hline]
  rfl

/-- The `methodNames` of a module, read off its text, are those for the operations that it reports
as emitted, in this order. -/
theorem methodNames_generateModule {table : TypeTable} {b : Binding} {ops : List Operation}
    {docs : Text → Option Documentation} {warnings : List Warning} {m : GeneratedModule}
    (htable : table.IsPlain) (hnames : ∀ op ∈ ops, op.WellNamed)
    (h : generateModule table b ops docs = (warnings, .ok m)) :
    methodNames m.code = m.report.emitted.map method := by
  obtain ⟨written, hops, hwellNamed, -, hlines⟩ := lines_of_generateModule htable hnames h
  obtain ⟨-, -, -, hemitted, -⟩ := written_of_generateModule table b docs h
  -- Nothing in front of the methods opens one, and nothing behind them does.
  have himports : ((b.importLines.map fun t => { text := t }).map (Line.render 0)).filterMap
      declaredMethod? = [] := by
    rw [Binding.importLines, Binding.runtimeNames]
    repeat rw [String.toList_ofList]
    cases b <;> decide
  have hopening : (containerOpening.map (Line.render 0)).filterMap declaredMethod? = [] := by
    rw [containerOpening, containerDocstring]
    repeat rw [String.toList_ofList]
    decide
  have hclosing : (containerClosing.map (Line.render 0)).filterMap declaredMethod? = [] := by
    decide
  have hlast : [([] : Text)].filterMap declaredMethod? = [] := by decide
  have hmethods : ∀ ws : List (Operation × Pieces), (∀ w ∈ ws, w.1.WellNamed) →
      openedNames (writtenBlocks ws).flatten = ws.map fun w => method w.1.name := by
    intro ws hws
    induction ws with
    | nil => rfl
    | cons w ws ih =>
      have hfirst := openedNames_block (hws w List.mem_cons_self).name w.2
      have ih := ih fun v hv => hws v (List.mem_cons_of_mem w hv)
      rw [openedNames, methodLines] at hfirst ih ⊢
      rw [writtenBlocks, List.map_cons, List.flatten_cons, List.filter_append,
        List.filterMap_append, hfirst, List.map_cons]
      exact congrArg (method w.1.name :: ·) ih
  rw [methodNames, hlines, hemitted, ← hops, moduleLines]
  simp only [List.map_append, List.filterMap_append, himports, hopening, hclosing, hlast,
    map_render_deeper, filterMap_declaredMethod?, hmethods written hwellNamed, List.nil_append,
    List.append_nil]
  rw [List.map_map, List.map_map]
  rfl

/-- The members of the graph that every method uses, which a method of the same name would replace.
-/
def graphMembers : List Text := ["make_name", "control_dependencies"]

/-- The method that a name stands for behind the class: the last one among whose `openedNames` it
is, since each method takes the place of those before it. -/
def reached? (written : List (Operation × Pieces)) (name : Text) : Option (Operation × Pieces) :=
  written.reverse.find? fun w => (openedNames (w.2.block w.1)).contains name

/-- Methods are told apart by the names of their operations, so `reached?` is a search by
`Naming.method`. -/
theorem reached?_eq_find? {written : List (Operation × Pieces)}
    (hnames : ∀ w ∈ written, IsIdentifier w.1.name) (name : Text) :
    reached? written name = written.reverse.find? fun w => method w.1.name == name := by
  rw [reached?, ← List.head?_filter, ← List.head?_filter]
  refine congrArg List.head? (List.filter_congr fun w hw => ?_)
  rw [openedNames_block (hnames w (List.mem_reverse.mp hw)), List.contains_cons,
    List.contains_nil, Bool.or_false]
  exact Bool.beq_comm ..

/-- The names of `emitted` operations are distinct if those of the given operations are. -/
theorem nodup_emitted {table : TypeTable} {b : Binding} {ops : List Operation}
    {docs : Text → Option Documentation} {warnings : List Warning} {m : GeneratedModule}
    (hdistinct : (ops.map (·.name)).Nodup)
    (h : generateModule table b ops docs = (warnings, .ok m)) : m.report.emitted.Nodup := by
  obtain ⟨-, -, -, hemitted, -⟩ := written_of_generateModule table b docs h
  have hsorted : ((sortedByName ops).map (·.name)).Nodup :=
    ((sortedByName_perm ops).map _).nodup_iff.mpr hdistinct
  rw [hemitted]
  exact hsorted.sublist (List.filter_sublist.map _)

/-- Take operations with distinct names, all of whose names are identifiers, and any documentation.
Where a module is generated, its `methodNames`, read off the text, are those for the emitted
operations, in order. They are distinct just when no two emitted names come to one method, and just
then the name of each method stands for the method of its operation. No method is called as a
keyword is, nor as the tuple of any operation's outputs. One is called as a member of the graph that
the methods use just when an emitted name has the `words` of that member. -/
theorem nodup_methodNames_iff (table : TypeTable) (b : Binding) (ops : List Operation)
    (docs : Text → Option Documentation) (warnings : List Warning) (m : GeneratedModule)
    (htable : table.IsPlain) (hnames : ∀ op ∈ ops, op.WellNamed)
    (hdistinct : (ops.map (·.name)).Nodup)
    (h : generateModule table b ops docs = (warnings, .ok m)) :
    let emitted := m.report.emitted
    methodNames m.code = emitted.map method ∧
      ((methodNames m.code).Nodup ↔ ∀ s ∈ emitted, ∀ t ∈ emitted, SameMethod s t → s = t) ∧
      (∃ written, written.map Prod.fst = surfaced table docs (sortedByName ops) ∧
        (∀ w ∈ written, IsWritten table b docs w) ∧
        m.code = moduleCode b (writtenBlocks written) ∧
        ((∀ w ∈ written, reached? written (method w.1.name) = some w) ↔
          ∀ s ∈ emitted, ∀ t ∈ emitted, SameMethod s t → s = t)) ∧
      (∀ name ∈ methodNames m.code, name ∉ Naming.keywords) ∧
      (∀ member ∈ graphMembers,
        member ∈ methodNames m.code ↔ ∃ s ∈ emitted, words s = splitOn '_' member) ∧
      ∀ op ∈ ops, op.outputsClass ∉ methodNames m.code := by
  intro emitted
  have hmethods := methodNames_generateModule htable hnames h
  have hnodup : emitted.Nodup := nodup_emitted hdistinct h
  -- Emitted names are distinct, so method names are distinct exactly where no two of them are
  -- `SameMethod`.
  have hinjective : (emitted.map method).Nodup ↔
      ∀ s ∈ emitted, ∀ t ∈ emitted, SameMethod s t → s = t := by
    rw [List.nodup_map_iff_inj_on hnodup]
    simp only [Naming.method_eq_method_iff]
  obtain ⟨written, hops, hwritten, hemitted, hcode⟩ := written_of_generateModule table b docs h
  have hwrittenNames : emitted = written.map fun w => w.1.name := by
    show m.report.emitted = _
    rw [hemitted, ← hops, List.map_map]
    rfl
  have hidentifiers : ∀ w ∈ written, IsIdentifier w.1.name := by
    intro w hw
    have hmem : w.1 ∈ written.map Prod.fst := List.mem_map_of_mem hw
    rw [hops] at hmem
    exact (hnames w.1 (mem_of_mem_surfaced table docs hmem)).name
  refine ⟨hmethods, hmethods ▸ hinjective, ⟨written, hops, hwritten, hcode, ?_⟩, ?_, ?_, ?_⟩
  · simp only [reached?_eq_find? hidentifiers]
    constructor
    · -- One name stands for one method only.
      intro hreached s hs t ht hsame
      rw [hwrittenNames] at hs ht
      obtain ⟨w, hw, rfl⟩ := List.mem_map.mp hs
      obtain ⟨v, hv, rfl⟩ := List.mem_map.mp ht
      have hone := (Naming.method_eq_method_iff ..).mpr hsame
      have hfound := hreached w hw
      rw [hone, hreached v hv] at hfound
      rw [Option.some.inj hfound]
    -- With distinct method names the last definition of a name is the only one.
    · intro hfree w hw
      have hkeys : (written.reverse.map fun w => method w.1.name).Nodup := by
        rw [List.map_reverse, List.nodup_reverse]
        have hall := hinjective.mpr hfree
        rwa [hwrittenNames, List.map_map] at hall
      exact find?_key_eq_some hkeys (List.mem_reverse.mpr hw)
  · intro name hname
    rw [hmethods] at hname
    obtain ⟨s, -, rfl⟩ := List.mem_map.mp hname
    exact Naming.method_not_mem_keywords s
  -- No member of the runtime is a keyword or ends in a low line, so `method_eq_iff` applies to
  -- each.
  · intro member hmember
    have hend : ∀ t ∈ graphMembers, t.getLast? ≠ some '_' := by decide
    have hfree : ∀ t ∈ graphMembers, t ∉ Naming.keywords := by decide
    rw [hmethods, List.mem_map]
    simp only [Naming.method_eq_iff (hend member hmember) (hfree member hmember)]
    rfl
  -- The name of the tuple has a capital letter, and a method has none.
  · intro op _ hmem
    rw [hmethods] at hmem
    obtain ⟨s, -, heq⟩ := List.mem_map.mp hmem
    have hcapital : 'O' ∈ method s := by simp [heq, Operation.outputsClass]
    exact Naming.not_mem_method_of_capital (by decide) s hcapital

namespace Sample

/-- Operations with the given names, without arguments or attributes. -/
def bare (names : List Text) : List Operation := names.map fun name => { name := name }

/-- The operations of `bare` are `WellNamed` if the given names are identifiers. -/
theorem wellNamed_bare {names : List Text} (h : ∀ name ∈ names, IsIdentifier name) :
    ∀ op ∈ bare names, op.WellNamed := by
  intro op hop
  obtain ⟨name, hname, rfl⟩ := List.mem_map.mp hop
  exact ⟨h name hname, by simp, by simp, by simp⟩

/-- Documentation for any operation, the same for all. -/
def anyDocs (name : Text) : Option Documentation := some { name := name, summary := "Computes." }

end Sample

/-- The `methodNames` of two operations, one of which is a keyword in snake case: their methods are
told apart. -/
theorem nodup_methodNames_iff_matMul :
    ∃ m, generateModule TypeTable.standard .graph (Sample.bare ["MatMul", "Not"]) Sample.anyDocs =
        ([], .ok m) ∧
      methodNames m.code = ["mat_mul".toList, "not_".toList] ∧ (methodNames m.code).Nodup ∧
      "make_name".toList ∉ methodNames m.code := by
  obtain ⟨m, hrun, hemitted⟩ : ∃ m,
      generateModule TypeTable.standard .graph (Sample.bare ["MatMul", "Not"]) Sample.anyDocs =
        ([], .ok m) ∧ m.report.emitted = ["MatMul".toList, "Not".toList] := by
    have hsorted : sortedByName (Sample.bare ["MatMul", "Not"]) = Sample.bare ["MatMul", "Not"] :=
      List.mergeSort_of_pairwise (by decide)
    rw [generateModule, hsorted]
    exact ⟨_, rfl, rfl⟩
  have hnames : ∀ op ∈ Sample.bare ["MatMul", "Not"], op.WellNamed :=
    Sample.wellNamed_bare (by decide)
  obtain ⟨hmethods, hdistinct, -, -, hmembers, -⟩ :=
    nodup_methodNames_iff TypeTable.standard .graph _ Sample.anyDocs [] m
      TypeTable.standard_isPlain hnames (by decide) hrun
  -- What is emitted is known, so the three answers become closed ones.
  rw [hemitted] at hmethods hdistinct hmembers
  refine ⟨m, hrun, hmethods, hdistinct.mpr (by decide), ?_⟩
  rw [hmembers "make_name" (by decide)]
  decide

/-- The `methodNames` of three operations with distinct identifiers as names. One method takes the
place of a member that every method uses. The other two are called alike, and their name stands for
the second of them only. -/
theorem methodNames_matMul :
    let ops := Sample.bare ["MakeName", "MatMul", "Mat_Mul"]
    (∀ op ∈ ops, op.WellNamed) ∧ (ops.map (·.name)).Nodup ∧
      ∃ m written, generateModule TypeTable.standard .graph ops Sample.anyDocs = ([], .ok m) ∧
        m.code = moduleCode .graph (writtenBlocks written) ∧ written.map Prod.fst = ops ∧
        methodNames m.code = ["make_name".toList, "mat_mul".toList, "mat_mul".toList] ∧
        ¬(methodNames m.code).Nodup ∧ "make_name".toList ∈ graphMembers ∧
        (reached? written "mat_mul").map (fun w => w.1.name) = some "Mat_Mul".toList := by
  intro ops
  have hnames : ∀ op ∈ ops, op.WellNamed := Sample.wellNamed_bare (by decide)
  obtain ⟨m, hrun, hemitted, htaken⟩ : ∃ m,
      generateModule TypeTable.standard .graph ops Sample.anyDocs = ([], .ok m) ∧
        m.report.emitted = ops.map (·.name) ∧
        surfaced TypeTable.standard Sample.anyDocs (sortedByName ops) = ops := by
    have hsorted : sortedByName ops = ops := List.mergeSort_of_pairwise (by decide)
    rw [generateModule, hsorted]
    exact ⟨_, rfl, rfl, rfl⟩
  obtain ⟨written, hops, -, -, hcode⟩ := written_of_generateModule _ _ _ hrun
  rw [htaken] at hops
  have hmethods := methodNames_generateModule TypeTable.standard_isPlain hnames hrun
  rw [hemitted] at hmethods
  have hthree : methodNames m.code = ["make_name".toList, "mat_mul".toList, "mat_mul".toList] :=
    hmethods.trans (by decide)
  refine ⟨hnames, by decide, m, written, hrun, hcode, hops, hthree, ?_, by decide, ?_⟩
  · rw [hthree]
    decide
  -- The last definition of a name is searched among the operations themselves, in place of the
  -- written methods.
  · have hidentifiers : ∀ w ∈ written, IsIdentifier w.1.name := by
      intro w hw
      have hmem : w.1 ∈ written.map Prod.fst := List.mem_map_of_mem hw
      rw [hops] at hmem
      exact (hnames w.1 hmem).name
    have hlast : (ops.reverse.find? fun op => method op.name == "mat_mul".toList).map (·.name) =
        some "Mat_Mul".toList := by decide
    rw [← hops, ← List.map_reverse, List.find?_map, Option.map_map] at hlast
    rw [reached?_eq_find? hidentifiers]
    exact hlast

end TypedOps
