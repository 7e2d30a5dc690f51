import TypedOps.Proofs.Layout.Wrap

/-!
# `TypedOps.Proofs.Layout.Shapes`: what becomes of a line of a given shape

`wrapLine_cases` says what a wrapped line looks like. Here it is the other way round: of a line that
is written down, what it is taken apart into.

* `wrapLine_definition`: a function definition, however many brackets stand in its parameters.
* `wrapLine_call`: the assignment of a call to a target without white space.
* `wrapLine_eq_self`: any line that ends in neither way.
-/

set_option autoImplicit false

namespace TypedOps.Layout

open Text

/-! ### Cutting off what is there -/

/-- A text is cut by `cutLast?` at a separator that does not come again. -/
theorem cutLast?_append_cons {sep : Char} (s : Text) {t : Text} (h : sep ∉ t) :
    cutLast? sep (s ++ sep :: t) = some (s, t) := by
  have hreverse : (s ++ sep :: t).reverse = t.reverse ++ sep :: s.reverse := by simp
  have hfree : sep ∉ t.reverse := fun hmem => h (List.mem_reverse.mp hmem)
  rw [cutLast?, hreverse, cut_append_cons hfree]
  simp

/-- The last code point of a text is taken off by `dropLast?`, if it is the one that is asked for.
-/
theorem dropLast?_concat {c : Char} (h : c ≠ '\n') (t : Text) :
    dropLast? c (t ++ [c]) = some t := by
  rw [dropLast?, List.reverse_concat]
  split
  · next heq => exact absurd (List.cons.inj heq).1 h
  · next heq =>
    obtain ⟨rfl, rfl⟩ := List.cons.inj heq
    simp
  · next heq => cases heq

/-! ### Definitions -/

/-- The parts of a definition are read by `definition?` off a line that is written from such parts.
-/
theorem definition?_eq {indent name params result : Text} (hindent : ∀ c ∈ indent, isBlank c = true)
    (hname : name ≠ [] ∧ ∀ c ∈ name, isWord c = true)
    (hfirst : ∀ c ∈ name.head?, isBlank c = false) (hparams : OneLine params)
    (hresult : isResult result = true) (hbracket : ')' ∉ result) :
    definition? (indent ++ ("def" ++ ([' '] ++ (name ++ '(' :: (params ++ ')' ::
      (result ++ [':'])))))) = some ⟨indent, name, params, result⟩ := by
  have hbehind : ')' ∉ result ++ [':'] := by simp [hbracket]
  -- The cuts are made at the parts: behind the keyword, behind the name, and at the last closing
  -- bracket, which the result cannot hold.
  have hgap : ([' '] ++ (name ++ '(' :: (params ++ ')' :: (result ++ [':'])))).span isBlank =
      ([' '], name ++ '(' :: (params ++ ')' :: (result ++ [':']))) := by
    refine span_append (by decide) ?_
    obtain ⟨c, name, rfl⟩ := List.exists_cons_of_ne_nil hname.1
    exact hfirst
  have hword : (name ++ '(' :: (params ++ ')' :: (result ++ [':']))).span isWord =
      (name, ['('] ++ (params ++ ')' :: (result ++ [':']))) :=
    span_append hname.2 (by simp; decide)
  have hopen : afterStart? "(" (['('] ++ (params ++ ')' :: (result ++ [':']))) =
      some (params ++ ')' :: (result ++ [':'])) := afterStart?_append ..
  unfold definition?
  rw [span_append hindent (by simp; decide)]
  simp only [afterStart?_append, Option.bind_eq_bind, Option.bind_some, hgap, hword, hopen,
    cutLast?_append_cons params hbehind, dropLast?_concat (by decide : ':' ≠ '\n'), hresult]
  have hfeed : '\n' ∉ params := hparams
  simp [hname.1, hfeed]

/-- A definition with more than one parameter is wrapped by `wrapLine` at its parameters, one a
line. -/
theorem wrapLine_definition {indent name params result : Text}
    (hindent : ∀ c ∈ indent, isBlank c = true) (hname : name ≠ [] ∧ ∀ c ∈ name, isWord c = true)
    (hfirst : ∀ c ∈ name.head?, isBlank c = false) (hparams : OneLine params)
    (hresult : isResult result = true) (hbracket : ')' ∉ result) :
    wrapLine (indent ++ ("def" ++ ([' '] ++ (name ++ '(' :: (params ++ ')' ::
      (result ++ [':'])))))) =
      (indent ++ "def " ++ name ++ ['(']) :: (itemLines indent (splitArguments params) ++
        [indent ++ ')' :: result ++ [':']]) := by
  rw [wrapLine, definition?_eq hindent hname hfirst hparams hresult hbracket]
  rfl

/-! ### Assignments of calls -/

/-- The expression that `call?` finds reaches to the first bracket. -/
theorem call?_eq {callee arguments : Text} (hne : callee ≠ [])
    (hcallee : ∀ c ∈ callee, isBlank c = false ∧ c ≠ '(') :
    call? ([' '] ++ (callee ++ '(' :: arguments)) = some (callee, arguments) := by
  obtain ⟨c, rest, rfl⟩ := List.exists_cons_of_ne_nil hne
  obtain ⟨⟨hc, -⟩, hrest⟩ := List.forall_mem_cons.mp hcallee
  have hfree : '(' ∉ rest := fun hmem => (hrest _ hmem).2 rfl
  rw [call?, span_append (by decide) (by simpa using hc)]
  simp only [List.cons_append, cut_append_cons hfree]

/-- The first of the `assignmentCuts` is at the equals sign behind the target. -/
theorem assignmentCuts_eq {target : Text} (hne : target ≠ [])
    (htarget : ∀ c ∈ target, isBlank c = false ∧ c ≠ '=') (rest : Text) :
    ∃ more, assignmentCuts (target ++ ' ' :: '=' :: rest) = (target, rest) :: more := by
  have hrun : (target ++ ' ' :: '=' :: rest).takeWhile (fun c => !isBlank c) = target := by
    rw [List.takeWhile_append_of_pos fun c hc => by simp [(htarget c hc).1]]
    exact List.append_nil _
  rw [assignmentCuts, hrun, List.drop_left]
  have hgap : (' ' :: '=' :: rest).dropWhile isBlank = '=' :: rest := rfl
  simp [hgap, hne]

/-- The parts of an assignment of a call are read by `callAssignment?` off a line that is written
from such parts. -/
theorem callAssignment?_eq {indent target callee arguments : Text}
    (hindent : ∀ c ∈ indent, isBlank c = true) (htarget_ne : target ≠ [])
    (htarget : ∀ c ∈ target, isBlank c = false ∧ c ≠ '=') (hne : callee ≠ [])
    (hcallee : ∀ c ∈ callee, isBlank c = false ∧ c ≠ '(') :
    callAssignment? (indent ++ (target ++ (" = " ++ (callee ++ '(' :: (arguments ++ [')']))))) =
      some ⟨indent, target, callee, arguments⟩ := by
  -- The bracket at the end is taken off first, so the line is written with it set apart.
  have hline : indent ++ (target ++ (" = " ++ (callee ++ '(' :: (arguments ++ [')'])))) =
      indent ++ (target ++ ' ' :: '=' :: ([' '] ++ (callee ++ '(' :: arguments))) ++ [')'] := by
    simp
  have hfirst : ∀ c ∈ (target ++ ' ' :: '=' :: ([' '] ++ (callee ++ '(' :: arguments))).head?,
      isBlank c = false := by
    obtain ⟨c, rest, rfl⟩ := List.exists_cons_of_ne_nil htarget_ne
    intro d hd
    exact (htarget d (by simp_all)).1
  obtain ⟨more, hcuts⟩ := assignmentCuts_eq htarget_ne htarget ([' '] ++ (callee ++ '(' ::
    arguments))
  rw [hline]
  unfold callAssignment?
  rw [dropLast?_concat (by decide)]
  simp only [Option.bind_eq_bind, Option.bind_some, span_append hindent hfirst, hcuts,
    List.findSome?_cons, call?_eq hne hcallee, Option.map_some]

/-- A line that `definition?` takes apart ends in a colon. -/
theorem getLast?_of_definition? {line : Text} {d : Definition} (hone : OneLine line)
    (h : definition? line = some d) : line.getLast? = some ':' := by
  obtain ⟨front, hfront⟩ := (unfolds_of_definition? hone h).exists_eq_append
  rw [hfront]
  simp only [← List.append_assoc, ← List.cons_append, List.getLast?_concat]

/-- An assignment of a call is wrapped by `wrapLine` at the arguments of the call, if it has more
than one. -/
theorem wrapLine_call {indent target callee arguments : Text}
    (hindent : ∀ c ∈ indent, isBlank c = true) (htarget_ne : target ≠ [])
    (htarget : ∀ c ∈ target, isBlank c = false ∧ c ≠ '=') (hne : callee ≠ [])
    (hcallee : ∀ c ∈ callee, isBlank c = false ∧ c ≠ '(')
    (hone : OneLine (indent ++ (target ++ (" = " ++ (callee ++ '(' :: (arguments ++ [')'])))))) :
    wrapLine (indent ++ (target ++ (" = " ++ (callee ++ '(' :: (arguments ++ [')']))))) =
      if 1 < (splitArguments arguments).length then
        (indent ++ target ++ " = " ++ callee ++ ['(']) ::
          (itemLines indent (splitArguments arguments) ++ [indent ++ [')']])
      else [indent ++ (target ++ (" = " ++ (callee ++ '(' :: (arguments ++ [')']))))] := by
  have hnone : definition? (indent ++ (target ++ (" = " ++ (callee ++ '(' ::
      (arguments ++ [')']))))) = none := by
    rw [← Option.not_isSome_iff_eq_none]
    intro hsome
    obtain ⟨d, hd⟩ := Option.isSome_iff_exists.mp hsome
    have hlast := getLast?_of_definition? hone hd
    simp only [← List.append_assoc, ← List.cons_append, List.getLast?_concat] at hlast
    exact absurd hlast (by decide)
  rw [wrapLine, hnone, callAssignment?_eq hindent htarget_ne htarget hne hcallee]
  rfl

/-! ### Any other line -/

/-- A line that does not end like an assignment of a call, and neither begins nor ends like a
definition, is left by `wrapLine` as it is. -/
theorem wrapLine_eq_self {line : Text} (hone : OneLine line)
    (hdefinition : line.getLast? = some ':' → (line.dropWhile isBlank).head? ≠ some 'd')
    (hcall : line.getLast? = some ')' → '=' ∉ line) : wrapLine line = [line] := by
  rcases wrapLine_cases hone with hsame | ⟨u, hu, -⟩
  · exact hsame
  · exfalso
    rcases hu.ends with ⟨hlast, rest, hrest⟩ | ⟨hlast, hequals⟩
    · exact hdefinition hlast (by rw [hrest]; rfl)
    · exact hcall hlast hequals

end TypedOps.Layout
