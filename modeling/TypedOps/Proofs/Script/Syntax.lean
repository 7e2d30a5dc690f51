import Mathlib.Data.Nat.Digits.Defs
import TypedOps.Emit.Binding
import TypedOps.Emit.Naming
import TypedOps.Proofs.Support.Lists
import TypedOps.Proofs.Text.Digits
import TypedOps.Proofs.Text.Pieces
import TypedOps.Proofs.Text.Plain

/-!
# `TypedOps.Proofs.Script.Syntax`: the statements that bind outputs

Generated code binds the outputs of an operation with a few kinds of statements: it assigns,
it increases a count, and it returns. A value is a name, a number, a quoted name, the sum of two
names, a call of a function or of a method, or the list of what a call gives for each number of
a range. `written` is the text of each, and `ofText?` reads it back. The reader takes nothing
else: what stands where a name is due must be a name (`IsName`).

* `Call.ofText?_written`: a call is read back from its text. Names hold no bracket, comma or
  full stop, so each part ends where its mark stands.
* `Statement.ofText?_written`: so is every statement with proper names. So a text is written
  for one such statement at most.
-/

set_option autoImplicit false

namespace TypedOps.Script

open Text

/-! ### Names -/

/-- A text with `IsIdentifier` that begins with no digit. -/
def IsWord (t : Text) : Prop :=
  IsIdentifier t ∧ (t.head?.any fun c => !c.isDigit) = true

/-- A text with `IsWord` that is none of the `keywords`, so that it can name a thing. -/
def IsName (t : Text) : Prop := IsWord t ∧ t ∉ Naming.keywords

instance (t : Text) : Decidable (IsWord t) :=
  inferInstanceAs (Decidable (IsIdentifier t ∧ (t.head?.any fun c => !c.isDigit) = true))

instance (t : Text) : Decidable (IsName t) :=
  inferInstanceAs (Decidable (IsWord t ∧ t ∉ Naming.keywords))

/-- The marks that stand between names. No text with `IsIdentifier` holds one, which is why texts
can be cut at them. -/
def marks : Text := [' ', '"', '(', ')', ',', '.', '[', ']']

/-- An identifier holds none of the `marks`. -/
theorem not_mem_of_isIdentifier {t : Text} (h : IsIdentifier t) : ∀ c ∈ marks, c ∉ t := by
  have hmarks : ∀ c ∈ marks, ¬(c.isAlphanum ∨ c = '_' ∨ 128 ≤ c.toNat) := by simp [marks]
  intro c hc
  exact h.not_mem (hmarks c hc)

/-- A text that `IsName` holds none of the `marks`, being an identifier. -/
theorem IsName.not_mem {t : Text} (h : IsName t) : ∀ c ∈ marks, c ∉ t :=
  not_mem_of_isIdentifier h.1.1

/-- A text that `IsName` has a first code point. -/
theorem IsName.ne_nil {t : Text} (h : IsName t) : t ≠ [] := by
  rintro rfl
  exact Bool.false_ne_true h.1.2

/-- A number is written by `ofNat` in digits. -/
theorem isDigit_of_mem_ofNat {n : Nat} {c : Char} (h : c ∈ ofNat n) : c.isDigit = true := by
  rw [ofNat] at h
  exact Nat.isDigit_of_mem_toDigits (by omega) (by omega) h

/-- A number is written by `ofNat` without any of the `marks`, that is in digits. -/
theorem not_mem_ofNat (n : Nat) : ∀ c ∈ marks, c ∉ ofNat n := by
  have hmarks : ∀ c ∈ marks, c.isDigit = false := by simp [marks]
  intro c hc hmem
  exact Bool.false_ne_true ((hmarks c hc).symm.trans (isDigit_of_mem_ofNat hmem))

/-- A number is not a text that `IsName`, as it begins with a digit. -/
theorem not_isName_ofNat (n : Nat) : ¬IsName (ofNat n) := by
  rintro ⟨⟨-, hhead⟩, -⟩
  cases hcase : ofNat n with
  | nil => exact Nat.toDigits_ne_nil hcase
  | cons c rest =>
    have hdigit : c.isDigit = true := isDigit_of_mem_ofNat (n := n) (by simp [hcase])
    rw [hcase] at hhead
    simp [hdigit] at hhead

/-- A text does not begin, for `afterStart?`, with what it does not hold. -/
theorem afterStart?_eq_none {c : Char} {t : Text} (h : c ∉ t) : afterStart? [c] t = none := by
  cases hrest : afterStart? [c] t with
  | none => rfl
  | some rest =>
    rw [eq_append_of_afterStart? hrest] at h
    simp at h

/-- What stands in front of `mark` at the end of a text. -/
def closed? (mark : Char) (t : Text) : Option Text :=
  if t.getLast? = some mark then some t.dropLast else none

/-- A closing mark is found by `closed?` behind what it closes. -/
theorem closed?_append (mark : Char) (t : Text) : closed? mark (t ++ [mark]) = some t := by
  rw [closed?, List.getLast?_concat, if_pos rfl, List.dropLast_concat]

/-! ### Values -/

/-- A value that is there without a `Call`. -/
inductive Operand where
  | name (x : Text)
  | number (n : Nat)
  | text (t : Text)
  | sum (x y : Text)
deriving DecidableEq, Repr

namespace Operand

/-- The text of an `Operand`, as generated code has it. -/
def written : Operand → Text
  | name x => x
  | number n => ofNat n
  | text t => Binding.between t
  | sum x y => x ++ " + " ++ y

/-- The names in an operand are proper ones. `Operand.ofText?` reads such operands back. -/
def WellNamed : Operand → Prop
  | name x => IsName x
  | number _ => True
  | text t => IsIdentifier t
  | sum x y => IsName x ∧ IsName y

/-- Read a name in quotes as an `Operand`, up to the quote that `closed?` takes off. -/
def quoted? : Text → Option Operand
  | '"' :: t => do
    let body ← closed? '"' t
    if IsIdentifier body then some (text body) else none
  | _ => none

/-- Read an operand from its `written` text: only a sum holds spaces. -/
def ofText? (t : Text) : Option Operand :=
  match cut ' ' t with
  | (x, some rest) => do
    let y ← afterStart? "+ " rest
    if IsName x ∧ IsName y then some (sum x y) else none
  | (_, none) =>
    if IsName t then some (name t)
    else if ofNat (digitsValue 10 t) = t then some (number (digitsValue 10 t))
    else quoted? t

/-- What is `written` for an operand holds no bracket, no comma and no full stop. -/
theorem not_mem_written {o : Operand} (h : o.WellNamed) :
    ∀ c ∈ marks, c ≠ ' ' → c ≠ '"' → c ∉ o.written := by
  have hplus : ∀ c ∈ marks, c ≠ ' ' → c ∉ (" + " : Text) := by simp [marks]
  intro c hc hspace hquote
  -- None of the four kinds of operands has a mark of its own, other than blanks and quotes.
  cases o with
  | name x => exact h.not_mem c hc
  | number n => exact not_mem_ofNat n c hc
  | text t =>
    have ht := not_mem_of_isIdentifier h c hc
    simp [written, Binding.between, hquote, ht]
  | sum x y =>
    rw [written, List.mem_append, List.mem_append]
    rintro ((hmem | hmem) | hmem)
    · exact h.1.not_mem c hc hmem
    · exact hplus c hc hspace hmem
    · exact h.2.not_mem c hc hmem

/-- What is `written` for an operand is not empty, so no operand is taken for an empty list. -/
theorem written_ne_nil {o : Operand} (h : o.WellNamed) : o.written ≠ [] := by
  cases o with
  | name x => exact h.ne_nil
  | number n => exact Nat.toDigits_ne_nil
  | text t => simp [written, Binding.between]
  | sum x y =>
    simp [written]

/-- An operand is read back by `ofText?` from its text. -/
theorem ofText?_written {o : Operand} (h : o.WellNamed) : ofText? o.written = some o := by
  cases o with
  | name x =>
    rw [written, ofText?, cut_of_not_mem (h.not_mem ' ' (by decide))]
    exact if_pos h
  | number n =>
    have hvalue : digitsValue 10 (ofNat n) = n := digitsValue_toDigits (by omega) (by omega) n
    rw [written, ofText?, cut_of_not_mem (not_mem_ofNat n ' ' (by decide)), hvalue]
    simp only [if_neg (not_isName_ofNat n), if_true]
  | text t =>
    -- The quotes tell it apart from a name and from a number.
    have hmem : '"' ∈ Binding.between t := List.mem_cons_self
    have hspace : ' ' ∉ Binding.between t := by
      simp [Binding.between, not_mem_of_isIdentifier h ' ' (by decide)]
    have hname : ¬IsName (Binding.between t) := fun hname =>
      hname.not_mem '"' (by decide) hmem
    have hnumber : ofNat (digitsValue 10 (Binding.between t)) ≠ Binding.between t := fun heq =>
      not_mem_ofNat _ '"' (by decide) (heq ▸ hmem)
    have hquoted : quoted? (Binding.between t) = some (text t) := by
      rw [Binding.between, List.cons_append, quoted?, closed?_append]
      exact if_pos h
    rw [written, ofText?, cut_of_not_mem hspace]
    simp only [if_neg hname, if_neg hnumber, hquoted]
  | sum x y =>
    have hcut : cut ' ' (x ++ " + " ++ y) = (x, some ("+ " ++ y)) := by
      rw [List.append_assoc]
      exact cut_append_cons (h.1.not_mem ' ' (by decide)) _
    rw [written, ofText?, hcut]
    simp only [afterStart?_append]
    exact if_pos h

/-- Read the operands of a call, each by `ofText?`, with a comma and a space between them. -/
def allOfText? (t : Text) : Option (List Operand) :=
  if t = [] then some []
  else
    match splitOn ',' t with
    | [] => none
    | first :: others => do
      let o ← ofText? first
      let os ← others.mapM fun piece => (afterStart? " " piece).bind ofText?
      some (o :: os)

/-- Texts joined by commas and spaces are cut by `splitOn` at the commas. -/
theorem splitOn_join_comma {first : Text} {others : List Text}
    (h : ∀ piece ∈ first :: others, ',' ∉ piece) :
    splitOn ',' (join ", " (first :: others)) = first :: others.map (' ' :: ·) := by
  induction others generalizing first with
  | nil => exact splitOn_of_not_mem (h first List.mem_cons_self)
  | cons next others ih =>
    have hfirst := h first List.mem_cons_self
    have ih := ih fun piece hpiece => h piece (List.mem_cons_of_mem first hpiece)
    -- The space goes to the piece behind the comma.
    have hjoin : join ", " (first :: next :: others) =
        first ++ ',' :: (' ' :: join ", " (next :: others)) := by
      simp [join]
    have hrest : splitOn ',' (' ' :: join ", " (next :: others)) =
        (' ' :: next) :: others.map (' ' :: ·) := by
      rw [splitOn, if_neg (by decide), ih]
    rw [hjoin, splitOn_append_cons hfirst, hrest, List.map_cons]

/-- Operands are read back by `allOfText?` from their texts. -/
theorem allOfText?_join {os : List Operand} (h : ∀ o ∈ os, o.WellNamed) :
    allOfText? (join ", " (os.map written)) = some os := by
  cases os with
  | nil => rfl
  | cons first others =>
    have hfirst := h first List.mem_cons_self
    have hothers : ∀ o ∈ others, o.WellNamed := fun o ho => h o (List.mem_cons_of_mem first ho)
    -- No operand holds a comma, so cutting at the commas gives the operands back.
    have hcomma : ∀ piece ∈ (first :: others).map written, ',' ∉ piece := by
      intro piece hpiece
      obtain ⟨o, ho, rfl⟩ := List.mem_map.mp hpiece
      exact not_mem_written (h o ho) ',' (by decide) (by decide) (by decide)
    have hne : join ", " ((first :: others).map written) ≠ [] := by
      intro hnil
      have hsplit := splitOn_join_comma hcomma
      rw [List.map_cons] at hnil
      rw [hnil] at hsplit
      exact written_ne_nil hfirst (List.cons.inj hsplit).1.symm
    -- Each of the others stands behind the blank that follows the comma.
    have hread : (others.map fun o => ' ' :: o.written).mapM
        (fun piece => (afterStart? " " piece).bind ofText?) = some others := by
      refine mapM_eq_some_iff.mpr ?_
      rw [List.map_map]
      refine List.map_congr_left fun o ho => ?_
      have hspace : afterStart? " " (' ' :: o.written) = some o.written :=
        afterStart?_append " " o.written
      rw [Function.comp_apply, hspace]
      exact ofText?_written (hothers o ho)
    rw [List.map_cons] at hne hcomma ⊢
    rw [allOfText?, if_neg hne, splitOn_join_comma hcomma, List.map_map]
    simp only [ofText?_written hfirst, Option.bind_eq_bind, Option.bind_some]
    exact (Option.bind_eq_some_iff.mpr ⟨others, hread, rfl⟩)

end Operand

/-! ### Calls -/

/-- A call of a function, or of a method of a thing that has a name, with its `Operand`s. -/
structure Call where
  receiver? : Option Text := none
  function : Text
  operands : List Operand
deriving DecidableEq, Repr

namespace Call

/-- What stands in front of the brackets of a `Call`. -/
def callee (c : Call) : Text :=
  match c.receiver? with
  | none => c.function
  | some x => x ++ '.' :: c.function

/-- A call without its closing bracket: the `callee`, the opening bracket and the operands. -/
def front (c : Call) : Text :=
  c.callee ++ '(' :: join ", " (c.operands.map Operand.written)

/-- The text of a `Call`, as generated code has it. -/
def written (c : Call) : Text := c.front ++ [')']

/-- The names in a `Call` have `IsName`. -/
structure WellNamed (c : Call) : Prop where
  receiver : ∀ x ∈ c.receiver?, IsName x
  function : IsName c.function
  operands : ∀ o ∈ c.operands, o.WellNamed

/-- Read the `callee` in front of the brackets: the function, or a thing and its method. -/
def callee? (t : Text) (operands : List Operand) : Option Call :=
  match cut '.' t with
  | (f, none) => if IsName f then some { function := f, operands := operands } else none
  | (x, some f) =>
    if IsName x ∧ IsName f then some { receiver? := some x, function := f, operands := operands }
    else none

/-- Read a call from its `written` text. It ends with its only closing bracket. -/
def ofText? (t : Text) : Option Call := do
  let (callee, inner?) := cut '(' t
  let operands ← Operand.allOfText? (← closed? ')' (← inner?))
  callee? callee operands

/-- The `callee` of a call holds no mark other than the full stop. -/
theorem not_mem_callee {c : Call} (h : c.WellNamed) :
    ∀ mark ∈ marks, mark ≠ '.' → mark ∉ c.callee := by
  intro mark hmark hstop
  rw [callee]
  split
  · exact h.function.not_mem mark hmark
  · next x hx =>
    have hreceiver := (h.receiver x hx).not_mem mark hmark
    have hfunction := h.function.not_mem mark hmark
    simp [hreceiver, hfunction, hstop]

/-- The `callee` of a call is read back. -/
theorem callee?_callee {c : Call} (h : c.WellNamed) : callee? c.callee c.operands = some c := by
  obtain ⟨receiver?, f, operands⟩ := c
  have hfunction : IsName f := h.function
  cases receiver? with
  | none =>
    rw [callee, callee?, cut_of_not_mem (hfunction.not_mem '.' (by decide))]
    exact if_pos hfunction
  | some x =>
    have hreceiver : IsName x := h.receiver x rfl
    rw [callee, callee?, cut_append_cons (hreceiver.not_mem '.' (by decide))]
    exact if_pos ⟨hreceiver, hfunction⟩

/-- The `front` of a call holds no square bracket, and no closing one. -/
theorem not_mem_front {c : Call} (h : c.WellNamed) :
    ∀ mark ∈ [')', '[', ']'], mark ∉ c.front := by
  have hmarks : ∀ mark ∈ [')', '[', ']'], mark ∈ marks ∧ mark ≠ '.' ∧ mark ≠ ' ' ∧
      mark ≠ '"' ∧ mark ≠ '(' ∧ mark ∉ (", " : Text) := by simp [marks]
  intro mark hmark hmem
  obtain ⟨hmark, hstop, hspace, hquote, hopening, hcomma⟩ := hmarks mark hmark
  rw [front, List.mem_append, List.mem_cons] at hmem
  rcases hmem with hmem | hmem | hmem
  · exact not_mem_callee h mark hmark hstop hmem
  · exact hopening hmem
  · rcases mem_join hmem with hmem | ⟨piece, hpiece, hmem⟩
    · exact hcomma hmem
    · obtain ⟨o, ho, rfl⟩ := List.mem_map.mp hpiece
      exact Operand.not_mem_written (h.operands o ho) mark hmark hspace hquote hmem

/-- A call is read back by `ofText?` from its text. -/
theorem ofText?_written {c : Call} (h : c.WellNamed) : ofText? c.written = some c := by
  have hopening := not_mem_callee h '(' (by decide) (by decide)
  rw [written, front, List.append_assoc, List.cons_append, ofText?, cut_append_cons hopening]
  simp only [Option.bind_eq_bind, Option.bind_some, closed?_append,
    Operand.allOfText?_join h.operands, callee?_callee h]

end Call

/-! ### Expressions -/

/-- A value, or the list of what a `Call` gives for each number of a range. -/
inductive Expr where
  | operand (o : Operand)
  | call (c : Call)
  | collect (item : Call) (x : Text) (source : Call)
deriving DecidableEq, Repr

namespace Expr

/-- The text of an `Expr`, as generated code has it. -/
def written : Expr → Text
  | operand o => o.written
  | call c => c.written
  | collect item x source =>
    '[' :: (item.written ++ " for " ++ x ++ " in " ++ source.written ++ [']'])

/-- The names in an `Expr` have `IsName`. -/
def WellNamed : Expr → Prop
  | operand o => o.WellNamed
  | call c => c.WellNamed
  | collect item x source => item.WellNamed ∧ IsName x ∧ source.WellNamed

/-- Read what stands inside the square brackets of a list: the first `Call` ends with its bracket.
-/
def collect? (t : Text) : Option Expr := do
  let (front, behind?) := cut ')' t
  let item ← Call.ofText? (front ++ [')'])
  let (x, range?) := cut ' ' (← afterStart? " for " (← behind?))
  let source ← Call.ofText? (← afterStart? "in " (← range?))
  if IsName x then some (collect item x source) else none

/-- Read an expression from its `written` text. Square brackets are around a list only, and round
ones only in a call. -/
def ofText? (t : Text) : Option Expr :=
  match afterStart? ['['] t with
  | some inner => (closed? ']' inner).bind collect?
  | none => if '(' ∈ t then (Call.ofText? t).map call else (Operand.ofText? t).map operand

/-- The list of what a call gives is read back by `collect?`. -/
theorem collect?_written {item source : Call} {x : Text} (hitem : item.WellNamed)
    (hx : IsName x) (hsource : source.WellNamed) :
    collect? (item.written ++ " for " ++ x ++ " in " ++ source.written) =
      some (collect item x source) := by
  have hfront : cut ')' (item.written ++ " for " ++ x ++ " in " ++ source.written) =
      (item.front, some (" for " ++ (x ++ ' ' :: ("in " ++ source.written)))) := by
    -- The closing bracket of the first call is the first one there is.
    have htext : item.written ++ " for " ++ x ++ " in " ++ source.written =
        item.front ++ ')' :: (" for " ++ (x ++ ' ' :: ("in " ++ source.written))) := by
      simp [Call.written]
    rw [htext]
    exact cut_append_cons (Call.not_mem_front hitem ')' (by decide)) _
  have hitem : Call.ofText? (item.front ++ [')']) = some item := Call.ofText?_written hitem
  rw [collect?, hfront]
  simp only [Option.bind_eq_bind, Option.bind_some, hitem, afterStart?_append,
    cut_append_cons (hx.not_mem ' ' (by decide)), Call.ofText?_written hsource]
  exact if_pos hx

/-- An expression of any of the kinds is read back by `ofText?` from its text. -/
theorem ofText?_written {e : Expr} (h : e.WellNamed) : ofText? e.written = some e := by
  cases e with
  | operand o =>
    have hmarks := Operand.not_mem_written h
    have hopening : '(' ∉ o.written := hmarks '(' (by decide) (by decide) (by decide)
    rw [written, ofText?, afterStart?_eq_none (hmarks '[' (by decide) (by decide) (by decide))]
    simp only [if_neg hopening, Operand.ofText?_written h, Option.map_some]
  | call c =>
    -- The bracket tells it apart from an operand.
    have hopening : '(' ∈ c.written := by simp [Call.written, Call.front]
    have hsquare : '[' ∉ c.written := by
      have hfront := Call.not_mem_front h '[' (by decide)
      simp [Call.written, hfront]
    rw [written, ofText?, afterStart?_eq_none hsquare]
    simp only [if_pos hopening, Call.ofText?_written h, Option.map_some]
  | collect item x source =>
    rw [written, ofText?]
    simp only [show ∀ t : Text, afterStart? ['['] ('[' :: t) = some t from
      afterStart?_append ['['], closed?_append, Option.bind_some]
    exact collect?_written h.1 h.2.1 h.2.2

end Expr

/-! ### Statements -/

/-- A statement of the kinds that the body of a generated method ends with: it binds or counts, or
returns an `Expr`. -/
inductive Statement where
  | assign (x : Text) (e : Expr)
  | increase (x : Text) (o : Operand)
  | give (e : Expr)
deriving DecidableEq, Repr

namespace Statement

/-- The text of a `Statement`, as generated code has it. -/
def written : Statement → Text
  | assign x e => x ++ " = " ++ e.written
  | increase x o => x ++ " += " ++ o.written
  | give e => "return " ++ e.written

-- These equations are stated by hand: deriving them from the definition takes very long.

/-- What is `written` for an assignment. -/
theorem written_assign (x : Text) (e : Expr) : (assign x e).written = x ++ " = " ++ e.written :=
  rfl

/-- What is `written` for an increase. -/
theorem written_increase (x : Text) (o : Operand) :
    (increase x o).written = x ++ " += " ++ o.written :=
  rfl

/-- What is `written` for a return. -/
theorem written_give (e : Expr) : (give e).written = "return " ++ e.written := rfl

/-- The names in a `Statement` have `IsName`. -/
def WellNamed : Statement → Prop
  | assign x e => IsName x ∧ e.WellNamed
  | increase x o => IsName x ∧ o.WellNamed
  | give e => e.WellNamed

/-- Read what stands behind the first word of a `Statement`. -/
def behindWord? (x rest : Text) : Option Statement :=
  if x = "return" then (Expr.ofText? rest).map give
  else if IsName x then
    match afterStart? "= " rest with
    | some t => (Expr.ofText? t).map (assign x)
    | none => (afterStart? "+= " rest).bind fun t => (Operand.ofText? t).map (increase x)
  else none

/-- Read a statement from its `written` text: its first word tells a return from the other two. -/
def ofText? (t : Text) : Option Statement := do
  let (x, rest?) := cut ' ' t
  behindWord? x (← rest?)

/-- A text that `IsName` is not the word that begins a return. -/
theorem ne_return {x : Text} (h : IsName x) : x ≠ "return" := by
  have hreturn : "return".toList ∈ Naming.keywords := by decide
  rintro rfl
  exact h.2 hreturn

/-- A statement of any of the kinds is read back by `ofText?` from its text. -/
theorem ofText?_written {s : Statement} (h : s.WellNamed) : ofText? s.written = some s := by
  cases s with
  -- A name is no keyword, so the word in front decides which kind of statement is read.
  | assign x e =>
    obtain ⟨hx, he⟩ := h
    have htext : x ++ " = " ++ e.written = x ++ ' ' :: ("= " ++ e.written) := by simp
    rw [written_assign, htext, ofText?, cut_append_cons (hx.not_mem ' ' (by decide))]
    simp only [Option.bind_eq_bind, Option.bind_some, behindWord?, if_neg (ne_return hx),
      if_pos hx, afterStart?_append, Expr.ofText?_written he, Option.map_some]
  | increase x o =>
    obtain ⟨hx, ho⟩ := h
    have htext : x ++ " += " ++ o.written = x ++ ' ' :: ("+= " ++ o.written) := by simp
    -- The sign of the increase is no assignment, so the reader goes on to the second form.
    have hplus : afterStart? "= " ("+= " ++ o.written) = none := by simp [afterStart?]
    rw [written_increase, htext, ofText?, cut_append_cons (hx.not_mem ' ' (by decide))]
    simp only [Option.bind_eq_bind, Option.bind_some, behindWord?, if_neg (ne_return hx),
      if_pos hx, hplus]
    rw [afterStart?_append, Option.bind_some, Operand.ofText?_written ho, Option.map_some]
  | give e =>
    have htext : ("return " : Text) ++ e.written = "return".toList ++ ' ' :: e.written := by simp
    rw [written_give, htext, ofText?, cut_append_cons (by decide)]
    simp only [Option.bind_eq_bind, Option.bind_some, behindWord?, if_true,
      Expr.ofText?_written h, Option.map_some]

end Statement

end TypedOps.Script
