import Mathlib.Data.List.TakeDrop
import Mathlib.Data.List.TakeWhile
import TypedOps.Proofs.Layout.BlankLines

/-!
# `TypedOps.Proofs.Layout.Wrap`: what a long line is wrapped into

A line is wrapped at the brackets of one list. `Unfolds` says how the line is taken apart there,
in the two shapes that can be wrapped, and `Unfolding.lines` puts the parts on lines of their own:
the opening, one line for each item and the closing. `wrapLine_cases` is the inversion that all
else starts from: a line stays as it is, or it unfolds.

Every part stands somewhere in the line, and what is added to it is white space and a comma. So
the lines that a line unfolds into hold no triple quote and no line feed that it does not hold,
none of them is blank, and none of them is wrapped again.
-/

set_option autoImplicit false

namespace TypedOps.Layout

open Text

/-! ### Parts of a text -/

/-- A text that `cut` cuts is cut at its first separator. -/
theorem eq_append_of_cut {sep : Char} {t before after : Text}
    (h : cut sep t = (before, some after)) : t = before ++ sep :: after ∧ sep ∉ before := by
  induction t generalizing before with
  | nil => simp [cut] at h
  | cons c t ih =>
    rw [cut] at h
    -- The first code point is the separator, or the cut is behind it.
    split at h
    · next hc =>
      cases h
      simp [hc]
    · next hc =>
      obtain ⟨rfl, hafter⟩ := Prod.mk.inj h
      obtain ⟨heq, hfree⟩ := ih (Prod.ext rfl hafter)
      refine ⟨?_, ?_⟩
      · rw [List.cons_append, ← heq]
      · simp [Ne.symm hc, hfree]

/-- A text that `cutLast?` cuts is cut at a separator. -/
theorem eq_append_of_cutLast? {sep : Char} {t before after : Text}
    (h : cutLast? sep t = some (before, after)) : t = before ++ sep :: after := by
  rw [cutLast?] at h
  split at h
  · cases h
  · next behind front hcut =>
    cases h
    rw [← t.reverse_reverse, (eq_append_of_cut hcut).1]
    simp

/-- The last code point of a text on one line is taken off by `dropLast?`: no line feed stands
behind it. -/
theorem eq_append_of_dropLast? {c : Char} {t rest : Text} (hone : OneLine t)
    (h : dropLast? c t = some rest) : t = rest ++ [c] := by
  have hback : t = t.reverse.reverse := t.reverse_reverse.symm
  rw [dropLast?] at h
  -- A line feed at the end would have been skipped, but there is none.
  split at h
  · next d before hreverse =>
    refine absurd ?_ hone
    rw [hback, hreverse]
    simp
  · next d before _ hreverse =>
    split at h
    · next hd =>
      cases h
      rw [hback, hreverse, List.reverse_cons, hd]
    · cases h
  · cases h

/-! ### The items of a list -/

/-- The `argumentPieces` between commas begin the list or stand somewhere in it. -/
theorem isInfix_argumentPieces (s : ArgState) (t : Text) :
    (∀ first ∈ (argumentPieces s t).head?, first <+: t) ∧
      ∀ piece ∈ argumentPieces s t, piece <:+: t := by
  -- The first piece is the one that the code point in front may join.
  induction t generalizing s with
  | nil => simp [argumentPieces]
  | cons c t ih =>
    have hlater : ∀ state, ∀ piece ∈ argumentPieces state t, piece <:+: c :: t :=
      fun state piece h => ((ih state).2 piece h).trans (List.suffix_cons c t).isInfix
    rw [argumentPieces]
    split
    · refine ⟨by simp, fun piece h => ?_⟩
      rcases List.mem_cons.mp h with rfl | h
      · exact List.nil_infix
      · exact hlater s piece h
    · cases hpieces : argumentPieces (s.next c) t with
      | nil =>
        have hsingle : [c] <+: c :: t := ⟨t, rfl⟩
        exact ⟨by simp, by simpa using hsingle.isInfix⟩
      | cons first rest =>
        have hrest := hlater (s.next c)
        have hfirst := (ih (s.next c)).1
        rw [hpieces] at hrest hfirst
        have hgrown : c :: first <+: c :: t := by
          rw [List.cons_prefix_cons]
          exact ⟨rfl, hfirst first rfl⟩
        refine ⟨by simpa using hgrown, fun piece h => ?_⟩
        rcases List.mem_cons.mp h with rfl | h
        · exact hgrown.isInfix
        · exact hrest piece (List.mem_cons_of_mem _ h)

/-- An item of `splitArguments` stands somewhere in the list, is not empty and does not begin with
white space. -/
theorem of_mem_splitArguments {t item : Text} (h : item ∈ splitArguments t) :
    item <:+: t ∧ item ≠ [] ∧ ∀ c ∈ item.head?, isBlank c = false := by
  obtain ⟨hmem, hne⟩ := List.mem_filter.mp h
  obtain ⟨piece, hpiece, rfl⟩ := List.mem_map.mp hmem
  exact ⟨(isInfix_strip piece).trans ((isInfix_argumentPieces {} t).2 piece hpiece),
    by simpa using hne, head?_strip piece⟩

/-! ### Lines taken apart -/

/-- A line taken apart at the brackets of a list, as `unfolding?` does it. -/
structure Unfolding where
  /-- The white space in front. -/
  indent : Text
  /-- What stands between it and the opening bracket. -/
  head : Text
  /-- What stands between the brackets. -/
  list : Text
  /-- What stands behind the closing bracket. -/
  tail : Text

namespace Unfolding

/-- The line with the opening bracket of an `Unfolding`, which keeps the indentation. -/
def opening (u : Unfolding) : Text := u.indent ++ (u.head ++ ['('])

/-- The line of an item of an `Unfolding`, one level further in and with a comma behind it. -/
def itemLine (u : Unfolding) (item : Text) : Text := (u.indent ++ "    ") ++ (item ++ [','])

/-- The line with the closing bracket of an `Unfolding` and what stands behind it. -/
def closing (u : Unfolding) : Text := u.indent ++ ')' :: u.tail

/-- The lines of the parts, one `itemLine` for each of the items between the `opening` and the
`closing`. -/
def lines (u : Unfolding) : List Text :=
  u.opening :: ((splitArguments u.list).map u.itemLine ++ [u.closing])

end Unfolding

/-- The two ways in which a line is taken apart into an `Unfolding`. The white space around the name
of a function and around an equals sign is not kept. -/
inductive Unfolds (line : Text) : Unfolding → Prop where
  /-- A function definition is taken apart at its parameters. -/
  | definition {indent gap name params result : Text}
      (shape : line =
        indent ++ ("def" ++ (gap ++ (name ++ '(' :: (params ++ ')' :: (result ++ [':']))))))
      (hindent : ∀ c ∈ indent, isBlank c = true)
      (hgap : gap ≠ [] ∧ ∀ c ∈ gap, isBlank c = true)
      (hname : name ≠ [] ∧ ∀ c ∈ name, isWord c = true)
      (hfirst : ∀ c ∈ name.head?, isBlank c = false) :
      Unfolds line ⟨indent, "def " ++ name, params, result ++ [':']⟩
  /-- An assignment of a call is taken apart at the arguments. -/
  | assignment {indent target gap space callee arguments : Text}
      (shape : line = indent ++
        (target ++ (gap ++ '=' :: (space ++ (callee ++ '(' :: (arguments ++ [')']))))))
      (hindent : ∀ c ∈ indent, isBlank c = true)
      (htarget : target ≠ [] ∧ ∀ c ∈ target, isBlank c = false)
      (hgap : ∀ c ∈ gap, isBlank c = true)
      (hspace : ∀ c ∈ space, isBlank c = true) :
      Unfolds line ⟨indent, target ++ (" = " ++ callee), arguments, []⟩

/-- The parts that `definition?` finds are a way to take the line apart. -/
theorem unfolds_of_definition? {line : Text} {d : Definition} (hone : OneLine line)
    (h : definition? line = some d) :
    Unfolds line ⟨d.indent, "def " ++ d.name, d.params, d.result ++ [':']⟩ := by
  obtain ⟨indent, rest, hspan, rfl, hindent, -⟩ := exists_span isBlank line
  -- The parts are taken off from the front one after the other, as the search does.
  simp only [definition?, hspan, Option.bind_eq_bind, Option.bind_eq_some_iff, Prod.exists] at h
  obtain ⟨behind, hdef, inside, hopen, params, tail, hclose, result, hcolon, h⟩ := h
  obtain ⟨gap, signature, hgapSpan, rfl, hgap, hfirst⟩ := exists_span isBlank behind
  obtain ⟨name, list, hnameSpan, rfl, hname, -⟩ := exists_span isWord signature
  simp only [hgapSpan, hnameSpan] at hopen h
  obtain rfl := eq_append_of_afterStart? hdef
  obtain rfl := eq_append_of_afterStart? hopen
  obtain rfl := eq_append_of_cutLast? hclose
  -- The colon is the very end of the line, since no line feed can stand behind it.
  have htail : OneLine tail := by
    simp only [OneLine, List.mem_append, List.mem_cons, not_or] at hone ⊢
    exact hone.2.2.2.2.2.2.2
  obtain rfl := eq_append_of_dropLast? htail hcolon
  split at h
  · next hparts =>
    cases h
    simp only [Bool.and_eq_true, Bool.not_eq_true', List.isEmpty_eq_false_iff] at hparts
    refine .definition rfl hindent ⟨hparts.1.1.1, hgap⟩ ⟨hparts.1.1.2, hname⟩ fun c hc => ?_
    cases name with
    | nil => cases hc
    | cons _ _ => exact hfirst c hc
  · cases h

/-- The expression that `call?` finds is not empty and reaches to an opening bracket, with nothing
but white space in front of it. -/
theorem eq_append_of_call? {t callee arguments : Text} (h : call? t = some (callee, arguments)) :
    ∃ space, t = space ++ (callee ++ '(' :: arguments) ∧ ∀ c ∈ space, isBlank c = true := by
  obtain ⟨space, rest, hspan, rfl, hblank, -⟩ := exists_span isBlank t
  simp only [call?, hspan] at h
  -- The expression begins at the first code point that is not blank.
  split at h
  · cases h
  · next c tail =>
    split at h
    · next before arguments' hcut =>
      cases h
      refine ⟨space, ?_, hblank⟩
      rw [(eq_append_of_cut hcut).1, List.cons_append]
    · -- Only white space stands in front of the bracket, and the last of it is the expression.
      split at h
      · next last hlast =>
        split at h
        · next hc =>
          cases h
          obtain ⟨front, rfl⟩ := List.getLast?_eq_some_iff.mp hlast
          exact ⟨front, by simp [hc], fun d hd => hblank d (by simp [hd])⟩
        · cases h
      · cases h

/-- One of the `cutsInside` a run leaves a target in front of an equals sign. -/
theorem eq_append_of_mem_cutsInside {before run target behind : Text}
    (h : (target, behind) ∈ cutsInside before run) :
    before ++ run = target ++ '=' :: behind ∧ target ≠ [] := by
  induction run generalizing before with
  | nil => cases h
  | cons c run ih =>
    rw [cutsInside, List.mem_append] at h
    -- A cut further on is found by the induction, and one at this code point is an equals sign.
    rcases h with h | h
    · obtain ⟨heq, hne⟩ := ih h
      exact ⟨by rw [← heq, List.append_assoc, List.singleton_append], hne⟩
    · split at h
      · next hcut =>
        simp only [List.mem_singleton, Prod.mk.injEq] at h
        obtain ⟨rfl, rfl⟩ := h
        simp only [Bool.and_eq_true, decide_eq_true_eq, Bool.not_eq_true',
          List.isEmpty_eq_false_iff] at hcut
        exact ⟨by rw [hcut.1], hcut.2⟩
      · cases h

/-- A target of the `assignmentCuts` is a run without white space, and nothing but white space
stands between it and an equals sign. -/
theorem eq_append_of_mem_assignmentCuts {t target behind : Text}
    (h : (target, behind) ∈ assignmentCuts t) :
    ∃ gap, t = target ++ (gap ++ '=' :: behind) ∧
      (target ≠ [] ∧ ∀ c ∈ target, isBlank c = false) ∧ ∀ c ∈ gap, isBlank c = true := by
  have hrun : ∀ c ∈ t.takeWhile fun c => !isBlank c, isBlank c = false := fun c hc => by
    simpa using List.mem_takeWhile_imp hc
  obtain ⟨rest, hrest⟩ := List.takeWhile_prefix (fun c => !isBlank c) (l := t)
  rw [assignmentCuts] at h
  generalize (t.takeWhile fun c => !isBlank c) = run at h hrun hrest
  subst hrest
  simp only [List.drop_left] at h
  rcases List.mem_append.mp h with h | h
  · -- The whole run is the target.
    split at h
    · next behind' hbehind =>
      split at h
      · cases h
      · next hne =>
        simp only [List.mem_singleton, Prod.mk.injEq] at h
        obtain ⟨rfl, rfl⟩ := h
        refine ⟨rest.takeWhile isBlank, ?_, ⟨by simpa using hne, hrun⟩,
          fun c hc => List.mem_takeWhile_imp hc⟩
        rw [← hbehind, List.takeWhile_append_dropWhile]
    · cases h
  · -- The equals sign stands in the run.
    obtain ⟨⟨target', behind'⟩, hmem, heq⟩ := List.mem_map.mp h
    simp only [Prod.mk.injEq] at heq
    obtain ⟨rfl, rfl⟩ := heq
    obtain ⟨hcut, hne⟩ := eq_append_of_mem_cutsInside hmem
    rw [List.nil_append] at hcut
    refine ⟨[], ?_, ⟨hne, fun c hc => hrun c (by simp [hcut, hc])⟩, by simp⟩
    rw [hcut]
    simp

/-- The parts that `callAssignment?` finds are a way to take the line apart. -/
theorem unfolds_of_callAssignment? {line : Text} {a : CallAssignment} (hone : OneLine line)
    (h : callAssignment? line = some a) :
    Unfolds line ⟨a.indent, a.target ++ (" = " ++ a.callee), a.arguments, []⟩ := by
  -- As the search does: the bracket at the end, the indentation, the target, the called expression.
  simp only [callAssignment?, Option.bind_eq_bind, Option.bind_eq_some_iff] at h
  obtain ⟨body, hclose, h⟩ := h
  obtain rfl := eq_append_of_dropLast? hone hclose
  obtain ⟨indent, rest, hspan, rfl, hindent, -⟩ := exists_span isBlank body
  simp only [hspan] at h
  obtain ⟨⟨target, behind⟩, hcut, hcall⟩ := List.exists_of_findSome?_eq_some h
  obtain ⟨⟨callee, arguments⟩, hcallee, rfl⟩ := Option.map_eq_some_iff.mp hcall
  obtain ⟨gap, rfl, htarget, hgap⟩ := eq_append_of_mem_assignmentCuts hcut
  obtain ⟨space, rfl, hspace⟩ := eq_append_of_call? hcallee
  have shape :
      indent ++ (target ++ (gap ++ '=' :: (space ++ (callee ++ '(' :: arguments)))) ++ [')'] =
        indent ++
          (target ++ (gap ++ '=' :: (space ++ (callee ++ '(' :: (arguments ++ [')']))))) := by
    simp
  exact .assignment shape hindent htarget hgap hspace

/-- How a line is taken apart to be wrapped, if it is: by `definition?`, or as a call by
`callAssignment?` where it has more than one argument. -/
def unfolding? (line : Text) : Option Unfolding :=
  match definition? line with
  | some d => some ⟨d.indent, "def " ++ d.name, d.params, d.result ++ [':']⟩
  | none =>
    (callAssignment? line).bind fun a =>
      if 1 < (splitArguments a.arguments).length then
        some ⟨a.indent, a.target ++ (" = " ++ a.callee), a.arguments, []⟩
      else none

/-- A line is wrapped into the lines of its parts, or stays where `unfolding?` finds none. -/
theorem wrapLine_eq (line : Text) :
    wrapLine line = ((unfolding? line).map Unfolding.lines).getD [line] := by
  unfold wrapLine unfolding?
  -- A definition is tried first, and only then an assignment of a call.
  cases definition? line with
  | some d =>
    simp [Unfolding.lines, Unfolding.opening, Unfolding.closing, itemLines, Unfolding.itemLine]
  | none =>
    cases callAssignment? line with
    | none => rfl
    | some a =>
      simp only [Option.bind_some]
      split
      · simp [Unfolding.lines, Unfolding.opening, Unfolding.closing, itemLines,
          Unfolding.itemLine]
      · rfl

/-- What `unfolding?` finds is one of the two ways to take the line apart. -/
theorem unfolds_of_unfolding? {line : Text} {u : Unfolding} (hone : OneLine line)
    (h : unfolding? line = some u) : Unfolds line u := by
  unfold unfolding? at h
  -- The search that succeeded says which of the two ways it is.
  cases hdefinition : definition? line with
  | some d =>
    rw [hdefinition] at h
    cases h
    exact unfolds_of_definition? hone hdefinition
  | none =>
    rw [hdefinition] at h
    obtain ⟨a, hassignment, h⟩ := Option.bind_eq_some_iff.mp h
    split at h
    · cases h
      exact unfolds_of_callAssignment? hone hassignment
    · cases h

/-- A line is left by `wrapLine` as it is, or it is taken apart in one of the two ways. -/
theorem wrapLine_cases {line : Text} (hone : OneLine line) :
    wrapLine line = [line] ∨ ∃ u, Unfolds line u ∧ wrapLine line = u.lines := by
  rw [wrapLine_eq]
  cases hunfolding : unfolding? line with
  | none => exact .inl rfl
  | some u => exact .inr ⟨u, unfolds_of_unfolding? hone hunfolding, rfl⟩

/-! ### The lines of the parts -/

/-- The `lines` of the parts are the opening, those of the items and the closing. -/
theorem Unfolding.mem_lines_iff (u : Unfolding) (part : Text) :
    part ∈ u.lines ↔ part = u.opening ∨ (∃ item ∈ splitArguments u.list, part = u.itemLine item) ∨
      part = u.closing := by
  simp [lines, eq_comm]

/-- White space, that is what `isBlank` accepts, holds no quote. -/
theorem quote_not_mem_of_blank {t : Text} (h : ∀ c ∈ t, isBlank c = true) : '"' ∉ t :=
  fun hmem => absurd (h _ hmem) (by decide)

namespace Unfolds

variable {line : Text} {u : Unfolding}

/-- In front of the opening of an `Unfolds` stands white space only. -/
theorem blank_indent (h : Unfolds line u) : ∀ c ∈ u.indent, isBlank c = true := by
  cases h with
  | definition _ hindent => exact hindent
  | assignment _ hindent => exact hindent

/-- If a line `Unfolds`, the list and what comes behind it end the line, behind an opening bracket.
-/
theorem exists_eq_append (h : Unfolds line u) :
    ∃ front, line = front ++ '(' :: (u.list ++ ')' :: u.tail) := by
  cases h with
  | @definition indent gap name params result shape =>
    exact ⟨indent ++ ("def" ++ (gap ++ name)), by simp [shape]⟩
  | @assignment indent target gap space callee arguments shape =>
    exact ⟨indent ++ (target ++ (gap ++ '=' :: (space ++ callee))), by simp [shape]⟩

/-- The last code point of the line tells the two ways of `Unfolds` apart. -/
theorem ends (h : Unfolds line u) :
    line.getLast? = some ':' ∧ (∃ rest, line.dropWhile isBlank = 'd' :: rest) ∨
      line.getLast? = some ')' ∧ '=' ∈ line := by
  cases h with
  | definition shape hindent =>
    refine .inl ⟨?_, ?_⟩
    · rw [shape]
      simp only [← List.append_assoc, ← List.cons_append, List.getLast?_concat]
    · rw [shape, dropWhile_blank_append hindent (by simp; decide)]
      exact ⟨_, rfl⟩
  | assignment shape =>
    refine .inr ⟨?_, by simp [shape]⟩
    rw [shape]
    simp only [← List.append_assoc, ← List.cons_append, List.getLast?_concat]

/-- If a line `Unfolds`, nothing stands behind the closing bracket, or a text that a colon ends. -/
theorem tail_cases (h : Unfolds line u) : u.tail = [] ∨ ∃ result, u.tail = result ++ [':'] := by
  cases h with
  | definition => exact .inr ⟨_, rfl⟩
  | assignment => exact .inl rfl

/-- If a line `Unfolds` and has no triple quotes, there is none in what stands in front of the list.
-/
theorem tripleQuotes_head (h : Unfolds line u) (hline : tripleQuotes line = 0) :
    tripleQuotes u.head = 0 := by
  -- In front of the list stands a keyword with a name, or a target with an expression.
  cases h with
  | @definition indent gap name params result _ _ _ hname =>
    have hfree : '"' ∉ ("def " : Text) ++ name := by
      intro hmem
      rcases List.mem_append.mp hmem with hmem | hmem
      · exact absurd hmem (by decide)
      · exact absurd (hname.2 _ hmem) (by decide)
    exact tripleQuotes_of_count_le (by rw [List.count_eq_zero.mpr hfree]; omega)
  | @assignment indent target gap space callee arguments shape =>
    have htarget : target <:+: line := ⟨indent, _, by rw [shape, List.append_assoc]⟩
    have hcallee : callee <:+: line :=
      ⟨indent ++ (target ++ (gap ++ '=' :: space)), '(' :: (arguments ++ [')']), by simp [shape]⟩
    -- White space and an equals sign are no quotes, so they keep the two parts apart.
    show tripleQuotes (target ++ ' ' :: ([] ++ '=' :: ([] ++ ' ' :: callee))) = 0
    rw [tripleQuotes_append_cons _ (by decide), tripleQuotes_append_cons _ (by decide),
      tripleQuotes_append_cons _ (by decide), tripleQuotes_of_isInfix htarget hline,
      tripleQuotes_of_isInfix hcallee hline]
    rfl

/-- If a line `Unfolds`, this makes no triple quote: each part was in the line, but for blanks, a
bracket and a comma. -/
theorem tripleQuotes_lines (h : Unfolds line u) (hline : tripleQuotes line = 0) :
    ∀ part ∈ u.lines, tripleQuotes part = 0 := by
  obtain ⟨front, hfront⟩ := h.exists_eq_append
  have hindent := quote_not_mem_of_blank h.blank_indent
  intro part hpart
  -- Each line is one of the parts with an end that has no quote.
  rcases (u.mem_lines_iff part).mp hpart with rfl | ⟨item, hitem, rfl⟩ | rfl
  · rw [Unfolding.opening, tripleQuotes_append_of_not_mem hindent,
      tripleQuotes_append_cons _ (by decide), h.tripleQuotes_head hline]
    rfl
  · have hlist : u.list <:+: line := ⟨front ++ ['('], ')' :: u.tail, by simp [hfront]⟩
    have hspace : '"' ∉ u.indent ++ "    " := by
      rw [List.mem_append, not_or]
      exact ⟨hindent, by decide⟩
    rw [Unfolding.itemLine, tripleQuotes_append_of_not_mem hspace,
      tripleQuotes_append_cons _ (by decide),
      tripleQuotes_of_isInfix ((of_mem_splitArguments hitem).1.trans hlist) hline]
    rfl
  · have htail : u.tail <:+: line := ⟨front ++ '(' :: (u.list ++ [')']), [], by simp [hfront]⟩
    rw [Unfolding.closing, tripleQuotes_append_of_not_mem hindent, tripleQuotes_cons (by decide),
      tripleQuotes_of_isInfix htail hline]

/-- If a line `Unfolds`, this makes no line feed, so each part is on one line. -/
theorem oneLine_lines (h : Unfolds line u) (hline : OneLine line) :
    ∀ part ∈ u.lines, OneLine part := by
  -- What stands in front of the list and the indentation are parts of the line in both ways.
  have hhead : OneLine u.head ∧ OneLine u.indent := by
    cases h with
    | definition shape _ _ hname =>
      have hname' : OneLine _ := fun hmem => absurd (hname.2 _ hmem) (by decide)
      simp only [shape, oneLine_append] at hline
      exact ⟨oneLine_append.mpr ⟨by decide, hname'⟩, hline.1⟩
    | assignment shape =>
      simp only [shape, OneLine, List.mem_append, List.mem_cons, not_or] at hline ⊢
      exact ⟨⟨hline.2.1, by decide, hline.2.2.2.2.2.1⟩, hline.1⟩
  obtain ⟨front, hfront⟩ := h.exists_eq_append
  simp only [hfront, OneLine, List.mem_append, List.mem_cons, not_or] at hline
  obtain ⟨-, -, hlist, -, htail⟩ := hline
  intro part hpart
  rcases (u.mem_lines_iff part).mp hpart with rfl | ⟨item, hitem, rfl⟩ | rfl
  · exact oneLine_append.mpr ⟨hhead.2, oneLine_append.mpr ⟨hhead.1, by decide⟩⟩
  · have hitem' : OneLine item := fun hmem =>
      hlist ((of_mem_splitArguments hitem).1.subset hmem)
    exact oneLine_append.mpr ⟨oneLine_append.mpr ⟨hhead.2, by decide⟩,
      oneLine_append.mpr ⟨hitem', by decide⟩⟩
  · refine oneLine_append.mpr ⟨hhead.2, ?_⟩
    simp [OneLine, htail]

/-- None of the `lines` of the parts is blank: each has a bracket or a comma. -/
theorem not_blank_of_mem_lines {part : Text} (hpart : part ∈ u.lines) :
    isBlankLine part = false := by
  rcases (u.mem_lines_iff part).mp hpart with rfl | ⟨item, -, rfl⟩ | rfl
  · exact isBlankLine_eq_false (c := '(') (by simp [Unfolding.opening]) (by decide)
  · exact isBlankLine_eq_false (c := ',') (by simp [Unfolding.itemLine]) (by decide)
  · exact isBlankLine_eq_false (c := ')') (by simp [Unfolding.closing]) (by decide)

/-- None of the `lines` of the parts can be wrapped again, for none of them ends like a line that
can. -/
theorem wrapLine_of_mem_lines (h : Unfolds line u) (hline : OneLine line) {part : Text}
    (hpart : part ∈ u.lines) : wrapLine part = [part] := by
  rcases wrapLine_cases (h.oneLine_lines hline part hpart) with hsame | ⟨v, hv, -⟩
  · exact hsame
  · exfalso
    have hends := hv.ends
    rcases (u.mem_lines_iff part).mp hpart with rfl | ⟨item, -, rfl⟩ | rfl
    · rw [Unfolding.opening, ← List.append_assoc, List.getLast?_concat] at hends
      simp at hends
    · rw [Unfolding.itemLine, ← List.append_assoc, List.getLast?_concat] at hends
      simp at hends
    · -- The closing line begins like no definition, and has an equals sign only where a colon
      -- ends it.
      rcases hends with ⟨-, rest, hrest⟩ | ⟨hlast, hequals⟩
      · rw [Unfolding.closing, dropWhile_blank_append h.blank_indent (by simp; decide)] at hrest
        simp at hrest
      · rcases h.tail_cases with htail | ⟨result, htail⟩
        · simp only [Unfolding.closing, htail, List.mem_append, List.mem_singleton] at hequals
          rcases hequals with hequals | hequals
          · exact absurd (h.blank_indent _ hequals) (by decide)
          · exact absurd hequals (by decide)
        · rw [Unfolding.closing, htail, ← List.cons_append, ← List.append_assoc,
            List.getLast?_concat] at hlast
          simp at hlast

end Unfolds

/-- No triple quote is made by `wrapLine`, whether or not the line is taken apart. -/
theorem tripleQuotes_of_mem_wrapLine {line part : Text} (hone : OneLine line)
    (hline : tripleQuotes line = 0) (h : part ∈ wrapLine line) : tripleQuotes part = 0 := by
  rcases wrapLine_cases hone with hsame | ⟨u, hu, hlines⟩
  · rw [hsame, List.mem_singleton] at h
    rw [h, hline]
  · rw [hlines] at h
    exact hu.tripleQuotes_lines hline part h

/-- No line feed is made by `wrapLine`, whether or not the line is taken apart. -/
theorem oneLine_of_mem_wrapLine {line part : Text} (hone : OneLine line)
    (h : part ∈ wrapLine line) : OneLine part := by
  rcases wrapLine_cases hone with hsame | ⟨u, hu, hlines⟩
  · rw [hsame, List.mem_singleton] at h
    rw [h]
    exact hone
  · rw [hlines] at h
    exact hu.oneLine_lines hone part h

/-- What `wrapLine` makes of a line is not wrapped again. -/
theorem wrapLine_of_mem_wrapLine {line part : Text} (hone : OneLine line)
    (h : part ∈ wrapLine line) : wrapLine part = [part] := by
  rcases wrapLine_cases hone with hsame | ⟨u, hu, hlines⟩
  · rw [hsame, List.mem_singleton] at h
    rw [h, hsame]
  · rw [hlines] at h
    exact hu.wrapLine_of_mem_lines hone h

/-- A line that is not blank is wrapped by `wrapLine` into lines that are not. -/
theorem not_blank_of_mem_wrapLine {line part : Text} (hone : OneLine line)
    (hline : isBlankLine line = false) (h : part ∈ wrapLine line) : isBlankLine part = false := by
  rcases wrapLine_cases hone with hsame | ⟨u, -, hlines⟩
  · rw [hsame, List.mem_singleton] at h
    rw [h, hline]
  · rw [hlines] at h
    exact Unfolds.not_blank_of_mem_lines h

/-- A blank line is left by `wrapLine` as it is, having neither a keyword nor an equals sign. -/
theorem wrapLine_of_isBlankLine {line : Text} (hone : OneLine line)
    (h : isBlankLine line = true) : wrapLine line = [line] := by
  rcases wrapLine_cases hone with hsame | ⟨u, hu, -⟩
  · exact hsame
  · obtain ⟨front, rfl⟩ := hu.exists_eq_append
    have hbracket := (isBlankLine_iff _).mp h '(' (by simp)
    exact absurd hbracket (by decide)

end TypedOps.Layout
