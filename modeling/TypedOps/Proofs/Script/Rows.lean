import TypedOps.Proofs.Text.Pieces
import TypedOps.Proofs.Text.TripleQuoted

/-!
# `TypedOps.Proofs.Script.Rows`: the statements of a text and their blocks

Generated code is laid out by columns: a statement that ends with a colon opens a block, and the
statements of the block stand four columns deeper. `rows?` reads a text as its statements, each
with its column. A literal between triple quotes is one statement, however many lines it has and
whatever they look like, and so is a list in brackets that a line opens at its end. Blank lines
are passed over.

`BlockStructured` says of statements in a row what the columns must do. Each follows those before
it (`Follows`): one level deeper where the last one opens a block, and back in an open block
otherwise.

* `Yields`: a text is read as given statements, whatever stands behind it. Texts one behind the
  other are read one by one.
* `Suite`: the statements of one block, put together from simple ones and from openings with the
  block below them. The induction in `Suite.laidOut` turns this shape into the rule for columns.
-/

set_option autoImplicit false

namespace TypedOps.Script

open Text

/-- A statement and the column that it stands at, as `rows?` reads them off a text. -/
structure Row where
  column : Nat
  text : Text
deriving DecidableEq, Repr

/-- Whether the statement of a `Row` opens a block, which is told by the colon at its end. -/
def Row.opens (r : Row) : Bool := r.text.getLast? == some ':'

/-! ### Reading statements -/

/-- The text through the first line that is a closing bracket alone, and the text behind it. It is
the end of a `statement?` that a bracket has opened. -/
def throughClosing? : Text → Option (Text × Text)
  | [] => none
  | c :: rest =>
    match afterStart? "\n)\n" (c :: rest) with
    | some behind => some ("\n)", behind)
    | none => (throughClosing? rest).map fun (items, behind) => (c :: items, behind)

/-- The statement that a text begins with, and the text behind the line feed that ends it. It goes
on through a literal (`TripleQuoted.read?`) or through a list of items, one a line. -/
def statement? (t : Text) : Option (Text × Text) :=
  if startsWith t (fill 3 '"') then
    match TripleQuoted.read? t with
    | some (_, '\n' :: behind) => some (t.take (t.length - (behind.length + 1)), behind)
    | _ => none
  else
    match cut '\n' t with
    | (line, some behind) =>
      if line.getLast? = some '(' then
        (throughClosing? behind).map fun (items, behind) => (line ++ '\n' :: items, behind)
      else some (line, behind)
    | (_, none) => none

/-- The statements of a text with their columns, one `statement?` after the other. Blank lines are
passed over. -/
def rows? (t : Text) : Option (List Row) :=
  match _ht : t.dropWhile (· == ' ') with
  | [] => some []
  | '\n' :: rest => rows? rest
  | c :: rest =>
    match statement? (c :: rest) with
    | none => none
    | some (text, behind) =>
      -- The reader of literals is not known to move on, so it is asked here.
      if behind.length < t.length then
        (rows? behind).map ({ column := (t.takeWhile (· == ' ')).length, text := text } :: ·)
      else none
termination_by t.length
decreasing_by
  · have hle := (List.dropWhile_suffix (· == ' ') (l := t)).length_le
    rw [_ht, List.length_cons] at hle
    omega
  · assumption

/-- A blank line is passed over by `rows?`. -/
theorem rows?_linefeed (rest : Text) : rows? ('\n' :: rest) = rows? rest := by
  rw [rows?]
  rfl

/-- A statement is read by `rows?` behind its indentation, and then what stands behind it. -/
theorem rows?_statement {column : Nat} {c : Char} {t text behind : Text} (hspace : c ≠ ' ')
    (hfeed : c ≠ '\n') (hstatement : statement? (c :: t) = some (text, behind))
    (hshorter : behind.length < (c :: t).length) :
    rows? (fill column ' ' ++ c :: t) = (rows? behind).map (⟨column, text⟩ :: ·) := by
  have hfill : ∀ d ∈ fill column ' ', (d == ' ') = true := by
    intro d hd
    simp [List.eq_of_mem_replicate hd]
  -- The indentation is cut off, and its length is the column.
  have hdrop : (fill column ' ' ++ c :: t).dropWhile (· == ' ') = c :: t := by
    rw [List.dropWhile_append_of_pos hfill, List.dropWhile_cons_of_neg (by simpa using hspace)]
  have htake : (fill column ' ' ++ c :: t).takeWhile (· == ' ') = fill column ' ' := by
    rw [List.takeWhile_append_of_pos hfill, List.takeWhile_cons_of_neg (by simpa using hspace),
      List.append_nil]
  have hlength : behind.length < (fill column ' ' ++ c :: t).length := by
    rw [List.length_append]
    omega
  rw [rows?]
  -- The line is not blank, so of the three cases of `rows?` only the last is left.
  split
  · next hnil =>
    rw [hdrop] at hnil
    cases hnil
  · next rest hline =>
    rw [hdrop] at hline
    cases hline
    exact absurd rfl hfeed
  · next d rest _ hcons =>
    rw [hdrop] at hcons
    cases hcons
    rw [hstatement]
    simp only
    rw [if_pos hlength, htake, fill, List.length_replicate]

/-- A text is read as the given statements, whatever stands behind it. This is what goes through
`Yields.append`, where `rows?` alone would not. -/
def Yields (t : Text) (rs : List Row) : Prop :=
  ∀ rest, rows? (t ++ rest) = (rows? rest).map (rs ++ ·)

/-- The empty text `Yields` no statement. -/
theorem yields_nil : Yields [] [] := by
  intro rest
  cases h : rows? rest <;> simp [h]

/-- Texts one behind the other, each of which `Yields` its statements, are read one by one. -/
theorem Yields.append {s t : Text} {xs ys : List Row} (hs : Yields s xs) (ht : Yields t ys) :
    Yields (s ++ t) (xs ++ ys) := by
  intro rest
  rw [List.append_assoc, hs, ht, Option.map_map]
  refine congrArg (Option.map · (rows? rest)) (funext fun zs => ?_)
  rw [Function.comp_apply, List.append_assoc]

/-- What a text `Yields` whatever stands behind it is read where nothing does. -/
theorem Yields.rows?_eq {t : Text} {rs : List Row} (h : Yields t rs) : rows? t = some rs := by
  have hend : rows? [] = some [] := by
    rw [rows?]
    rfl
  have hall := h []
  rw [List.append_nil, hend, Option.map_some, List.append_nil] at hall
  exact hall

/-- A blank line `Yields` no statement. -/
theorem yields_linefeed : Yields ['\n'] [] := by
  intro rest
  rw [List.singleton_append, rows?_linefeed]
  cases rows? rest <;> simp

/-- How a line of code begins for `rows?`: it is neither empty nor indented, and no literal. -/
def Starts (t : Text) : Prop := (t.head?.any fun c => c != ' ' && c != '"') = true

instance (t : Text) : Decidable (Starts t) :=
  inferInstanceAs (Decidable ((t.head?.any fun c => c != ' ' && c != '"') = true))

/-- A text that `Starts` as a line of code has a first code point, which is neither a space nor a
quote. -/
theorem Starts.exists_cons {t : Text} (h : Starts t) :
    ∃ c rest, t = c :: rest ∧ c ≠ ' ' ∧ c ≠ '"' := by
  cases t with
  | nil => exact absurd h Bool.false_ne_true
  | cons c rest => exact ⟨c, rest, rfl, by simpa [Starts] using h⟩

/-- Whether a line `Starts` as code depends on its beginning only. -/
theorem Starts.append {s : Text} (h : Starts s) (t : Text) : Starts (s ++ t) := by
  obtain ⟨c, rest, rfl, -⟩ := h.exists_cons
  exact h

/-- A line of code that opens no list `Yields` a statement. -/
theorem yields_line {t : Text} (column : Nat) (hone : OneLine t) (hstarts : Starts t)
    (hend : t.getLast? ≠ some '(') : Yields (fill column ' ' ++ t ++ ['\n']) [⟨column, t⟩] := by
  obtain ⟨c, u, rfl, hspace, hquote⟩ := hstarts.exists_cons
  intro rest
  have hfeed : c ≠ '\n' := by
    rintro rfl
    exact hone List.mem_cons_self
  have hstatement : statement? (c :: (u ++ '\n' :: rest)) = some (c :: u, rest) := by
    -- The line begins with no triple quote, so it is read up to its line feed.
    have hbare : startsWith (c :: (u ++ '\n' :: rest)) (fill 3 '"') = false := by
      simp [startsWith, fill, List.replicate, afterStart?, Ne.symm hquote]
    have hcut : cut '\n' (c :: (u ++ '\n' :: rest)) = (c :: u, some rest) :=
      cut_append_cons hone rest
    rw [statement?, if_neg (by simp [hbare]), hcut]
    exact if_neg hend
  have htext : fill column ' ' ++ c :: u ++ ['\n'] ++ rest =
      fill column ' ' ++ c :: (u ++ '\n' :: rest) := by simp
  rw [htext, rows?_statement hspace hfeed hstatement (by simp; omega)]
  rfl

/-- A literal between triple quotes `Yields` one statement, over as many lines as it has. -/
theorem yields_literal {body value : Text} (column : Nat) (hclosed : TripleQuoted.Closed body)
    (hspells : Spells TripleQuoted.literalEscape? (fun c => [c]) body value) :
    Yields (fill column ' ' ++ (fill 3 '"' ++ body ++ fill 3 '"') ++ ['\n'])
      [⟨column, fill 3 '"' ++ body ++ fill 3 '"'⟩] := by
  intro rest
  have hread := TripleQuoted.read?_eq_some hclosed hspells ('\n' :: rest)
  -- The literal, with its first quote apart.
  obtain ⟨u, hu⟩ : ∃ u, fill 3 '"' ++ body ++ fill 3 '"' = '"' :: u := ⟨_, rfl⟩
  rw [hu] at hread ⊢
  have hstatement : statement? ('"' :: (u ++ '\n' :: rest)) = some ('"' :: u, rest) := by
    have hquotes : startsWith ('"' :: (u ++ '\n' :: rest)) (fill 3 '"') = true := by
      refine (startsWith_iff_isPrefix ..).mpr ⟨body ++ fill 3 '"' ++ '\n' :: rest, ?_⟩
      rw [← List.cons_append, ← hu]
      simp
    have hlength : ('"' :: (u ++ '\n' :: rest)).length - (rest.length + 1) = ('"' :: u).length := by
      simp
      omega
    rw [statement?, if_pos hquotes, ← List.cons_append, hread]
    simp only
    rw [List.cons_append, hlength, ← List.cons_append, List.take_left]
  have htext : fill column ' ' ++ '"' :: u ++ ['\n'] ++ rest =
      fill column ' ' ++ '"' :: (u ++ '\n' :: rest) := by simp
  rw [htext, rows?_statement (by decide) (by decide) hstatement (by simp; omega)]
  rfl

/-- A list is not closed for `throughClosing?` inside a line, since the bracket that closes it
stands behind a line feed. -/
theorem throughClosing?_append {s : Text} (h : OneLine s) (rest : Text) :
    throughClosing? (s ++ rest) =
      (throughClosing? rest).map fun (items, behind) => (s ++ items, behind) := by
  induction s with
  | nil => cases hrest : throughClosing? rest <;> simp [hrest]
  | cons c s ih =>
    simp only [OneLine, List.mem_cons, not_or] at h
    have hopen : afterStart? "\n)\n" (c :: (s ++ rest)) = none := by
      have hmark : ("\n)\n" : Text) = '\n' :: [')', '\n'] := by decide
      rw [hmark, afterStart?, if_neg h.1]
    rw [List.cons_append, throughClosing?, hopen, ih h.2]
    cases throughClosing? rest <;> rfl

/-- A list is closed for `throughClosing?` at the bracket behind its lines, where none of these
begins with one. -/
theorem throughClosing?_lines {ls : List Text} (hne : ls ≠ [])
    (h : ∀ l ∈ ls, OneLine l ∧ (l.head?.any fun c => c != ')') = true) (rest : Text) :
    throughClosing? (ls.flatMap (· ++ ['\n']) ++ [')', '\n'] ++ rest) =
      some (ls.flatMap (· ++ ['\n']) ++ [')'], rest) := by
  induction ls with
  | nil => exact absurd rfl hne
  | cons l ls ih =>
    obtain ⟨hone, -⟩ := h l List.mem_cons_self
    cases ls with
    | nil =>
      have hlast : throughClosing? ('\n' :: ')' :: '\n' :: rest) = some (['\n', ')'], rest) := rfl
      have htext : [l].flatMap (· ++ ['\n']) ++ [')', '\n'] ++ rest =
          l ++ '\n' :: ')' :: '\n' :: rest := by simp
      rw [htext, throughClosing?_append hone, hlast]
      simp
    | cons next others =>
      have ih := ih (List.cons_ne_nil _ _) fun m hm => h m (List.mem_cons_of_mem l hm)
      -- The next line begins with something else than a bracket, so the list goes on.
      obtain ⟨-, hhead⟩ := h next (List.mem_cons_of_mem l List.mem_cons_self)
      obtain ⟨d, u, rfl⟩ : ∃ d u, next = d :: u := by
        cases next with
        | nil => exact absurd hhead Bool.false_ne_true
        | cons d u => exact ⟨d, u, rfl⟩
      have hd : ')' ≠ d := by
        rintro rfl
        exact absurd hhead (by simp)
      obtain ⟨tail, htail⟩ : ∃ tail,
          ((d :: u) :: others).flatMap (· ++ ['\n']) ++ [')', '\n'] ++ rest = d :: tail := ⟨_, rfl⟩
      have hopen : afterStart? "\n)\n" ('\n' :: d :: tail) = none := by
        have hmark : ("\n)\n" : Text) = '\n' :: ')' :: ['\n'] := by decide
        rw [hmark, afterStart?, if_pos rfl, afterStart?, if_neg hd]
      have htext : (l :: (d :: u) :: others).flatMap (· ++ ['\n']) ++ [')', '\n'] ++ rest =
          l ++ '\n' :: d :: tail := by
        rw [List.flatMap_cons, ← htail]
        simp
      rw [htail] at ih
      rw [htext, throughClosing?_append hone, throughClosing?, hopen, ih]
      simp

/-- A line that opens a list `Yields` one statement with the list, where this is closed. -/
theorem yields_list {line items written : Text} (column : Nat) (hone : OneLine line)
    (hstarts : Starts line) (hend : line.getLast? = some '(')
    (hclosing : ∀ rest, throughClosing? (items ++ rest) = some (written, rest)) :
    Yields (fill column ' ' ++ line ++ ['\n'] ++ items) [⟨column, line ++ '\n' :: written⟩] := by
  obtain ⟨c, u, rfl, hspace, hquote⟩ := hstarts.exists_cons
  intro rest
  have hfeed : c ≠ '\n' := by
    rintro rfl
    exact hone List.mem_cons_self
  have hstatement : statement? (c :: (u ++ '\n' :: (items ++ rest))) =
      some (c :: u ++ '\n' :: written, rest) := by
    -- Up to the line feed it is a line of code, and the bracket at its end has the list read as
    -- well.
    have hbare : startsWith (c :: (u ++ '\n' :: (items ++ rest))) (fill 3 '"') = false := by
      simp [startsWith, fill, List.replicate, afterStart?, Ne.symm hquote]
    have hcut : cut '\n' (c :: (u ++ '\n' :: (items ++ rest))) = (c :: u, some (items ++ rest)) :=
      cut_append_cons hone (items ++ rest)
    rw [statement?, if_neg (by simp [hbare]), hcut]
    show (if (c :: u).getLast? = some '(' then (throughClosing? (items ++ rest)).map _ else _) = _
    rw [if_pos hend, hclosing]
    rfl
  have htext : fill column ' ' ++ c :: u ++ ['\n'] ++ items ++ rest =
      fill column ' ' ++ c :: (u ++ '\n' :: (items ++ rest)) := by simp
  rw [htext, rows?_statement hspace hfeed hstatement (by simp; omega)]
  rfl

/-! ### Blocks -/

/-- A column that a `Row` stood at, with none further to the left behind it: a block there is still
open. -/
def Open (history : List Row) (column : Nat) : Prop :=
  ∃ before r behind, history = before ++ r :: behind ∧ r.column = column ∧
    ∀ s ∈ behind, column ≤ s.column

/-- Where a statement may stand behind others. The first one stands at the margin. Another one
stands one level deeper than the last just when that `opens` a block, and else no deeper than the
last and in a block that is `Open`. -/
def Follows (history : List Row) (column : Nat) : Prop :=
  match history.getLast? with
  | none => column = 0
  | some last => (column = last.column + 4 ↔ last.opens) ∧
      (¬last.opens → column ≤ last.column ∧ Open history column)

/-- Every statement `Follows` those before it. -/
def LaidOut (history : List Row) : List Row → Prop
  | [] => True
  | r :: rest => Follows history r.column ∧ LaidOut (history ++ [r]) rest

/-- Statements that form blocks: each `Follows` those before it, and the last one stands at the
margin and opens no block, so no block is empty. -/
structure BlockStructured (rs : List Row) : Prop where
  laidOut : LaidOut [] rs
  last : ∃ r ∈ rs.getLast?, r.column = 0 ∧ ¬r.opens

/-- Statements in two runs are `LaidOut` when the second run is laid out behind the first. -/
theorem laidOut_append (history xs ys : List Row) :
    LaidOut history (xs ++ ys) ↔ LaidOut history xs ∧ LaidOut (history ++ xs) ys := by
  induction xs generalizing history with
  | nil => simp [LaidOut]
  | cons r xs ih =>
    rw [List.cons_append, LaidOut, LaidOut, ih, List.append_assoc, List.singleton_append,
      and_assoc]

/-- Where statements are `LaidOut`, each of them follows those before it. -/
theorem LaidOut.follows {history before after : List Row} {r : Row}
    (h : LaidOut history (before ++ r :: after)) : Follows (history ++ before) r.column :=
  ((laidOut_append history before (r :: after)).mp h).2.1

/-- In statements that are `BlockStructured` no block is empty: behind a statement that opens one
stands another, one level deeper. -/
theorem BlockStructured.opened {rs before after : List Row} {r : Row} (h : BlockStructured rs)
    (hplace : rs = before ++ r :: after) (hopens : r.opens) :
    ∃ s rest, after = s :: rest ∧ s.column = r.column + 4 := by
  subst hplace
  -- The last statement of a module opens no block, so there is one behind.
  cases after with
  | nil =>
    obtain ⟨last, hlast, -, hclosed⟩ := h.last
    rw [List.getLast?_concat] at hlast
    cases hlast
    exact absurd hopens hclosed
  | cons s rest =>
    refine ⟨s, rest, rfl, ?_⟩
    have hfollows : Follows ([] ++ (before ++ [r])) s.column := by
      have hlaid : LaidOut [] (before ++ [r] ++ s :: rest) := by simpa using h.laidOut
      simpa using hlaid.follows
    rw [List.nil_append, Follows, List.getLast?_concat] at hfollows
    exact hfollows.1.mpr hopens

/-- The statements of a block at a column. Built along this structure they are laid out anywhere,
see `Suite.laidOut`. -/
inductive Suite : Nat → List Row → Prop where
  /-- No statement. -/
  | nil {column : Nat} : Suite column []
  /-- A statement that opens no block, and the rest. -/
  | simple {column : Nat} {text : Text} {rest : List Row}
    (hclosed : (Row.mk column text).opens = false) (hrest : Suite column rest) :
    Suite column (⟨column, text⟩ :: rest)
  /-- A statement that opens a block, the block, which is not empty, and the rest. -/
  | compound {column : Nat} {text : Text} {body rest : List Row}
    (hopens : (Row.mk column text).opens = true) (hne : body ≠ []) (hbody : Suite (column + 4) body)
    (hrest : Suite column rest) : Suite column (⟨column, text⟩ :: (body ++ rest))

namespace Suite

/-- Two runs of statements of one `Suite` make one run. -/
theorem append {column : Nat} {xs ys : List Row} (hx : Suite column xs) (hy : Suite column ys) :
    Suite column (xs ++ ys) := by
  induction hx with
  | nil => exact hy
  | simple hclosed _ ih => exact .simple hclosed (ih hy)
  | compound hopens hne hbody _ _ ih =>
    rw [List.cons_append, List.append_assoc]
    exact .compound hopens hne hbody (ih hy)

/-- No statement of a `Suite` stands further to the left than its column. -/
theorem le_column {column : Nat} {rs : List Row} (h : Suite column rs) :
    ∀ r ∈ rs, column ≤ r.column := by
  induction h with
  | nil => simp
  | simple _ _ ih => simpa using ih
  | @compound column text body rest _ _ _ _ ihbody ih =>
    intro r hr
    rcases List.mem_cons.mp hr with rfl | hr
    · exact Nat.le_refl _
    · rcases List.mem_append.mp hr with hr | hr
      · have hdeep := ihbody r hr
        omega
      · exact ih r hr

/-- The last statement of a `Suite` opens no block. -/
theorem closed_last {column : Nat} {rs : List Row} (h : Suite column rs) :
    ∀ r ∈ rs.getLast?, r.opens = false := by
  -- The last statement stands in the rest of the block or, if there is none, at the end of its last
  -- one.
  induction h with
  | nil => simp
  | @simple column text rest hclosed _ ih =>
    cases rest with
    | nil => simpa using hclosed
    | cons r rest => simpa using ih
  | @compound column text body rest _ hne _ _ ihbody ih =>
    cases rest with
    | nil =>
      cases body with
      | nil => exact absurd rfl hne
      | cons r body => simpa using ihbody
    | cons r rest =>
      rw [← List.cons_append, List.getLast?_append]
      simpa using ih

/-- Behind a statement of the block, and others that stand no further to the left and end with one
that opens nothing, the block goes on at its column: what stands there `Follows`. -/
theorem follows_of_open {history behind : List Row} {r : Row}
    (hle : ∀ s ∈ behind, r.column ≤ s.column)
    (hlast : ∀ s ∈ (r :: behind).getLast?, s.opens = false) :
    Follows (history ++ r :: behind) r.column := by
  obtain ⟨last, hlastEq⟩ : ∃ last, (r :: behind).getLast? = some last :=
    ⟨_, List.getLast?_eq_getLast_of_ne_nil (List.cons_ne_nil r behind)⟩
  have hclosed := hlast last hlastEq
  -- The last statement behind is no further to the left, and closed, so nothing opens a deeper
  -- block.
  have hlastLe : r.column ≤ last.column := by
    rcases List.mem_cons.mp (List.mem_of_getLast? hlastEq) with rfl | hmem
    · exact Nat.le_refl _
    · exact hle last hmem
  have hall : (history ++ r :: behind).getLast? = some last := by
    rw [List.getLast?_append, hlastEq]
    rfl
  rw [Follows, hall]
  refine ⟨?_, fun _ => ⟨hlastLe, history, r, behind, rfl, rfl, hle⟩⟩
  rw [hclosed]
  constructor
  · intro heq
    omega
  · intro h
    cases h

/-- A `Suite` is laid out behind any statements that its column may follow, and behind it its column
may be followed again. -/
theorem laidOut {column : Nat} {rs : List Row} (h : Suite column rs) :
    ∀ history, Follows history column →
      LaidOut history rs ∧ Follows (history ++ rs) column := by
  induction h with
  | nil =>
    intro history hentry
    exact ⟨trivial, by simpa using hentry⟩
  | @simple column text rest hclosed hrest ih =>
    intro history hentry
    -- A statement that opens nothing leaves the block open behind it.
    have hnext : Follows (history ++ [⟨column, text⟩]) column :=
      follows_of_open (r := ⟨column, text⟩) (by simp) (by simpa using hclosed)
    obtain ⟨hlaid, hexit⟩ := ih _ hnext
    rw [List.append_assoc] at hexit
    exact ⟨⟨hentry, hlaid⟩, hexit⟩
  | @compound column text body rest hopens hne hbody hrest ihbody ih =>
    intro history hentry
    -- The block below begins one level deeper, and nowhere else could it begin.
    have hdeeper : Follows (history ++ [⟨column, text⟩]) (column + 4) := by
      rw [Follows, List.getLast?_concat]
      exact ⟨⟨fun _ => hopens, fun _ => rfl⟩, fun hnot => absurd hopens hnot⟩
    obtain ⟨hlaidBody, -⟩ := ihbody _ hdeeper
    -- Behind the block below, the statement that opened it keeps this one open.
    have hback : Follows (history ++ ⟨column, text⟩ :: body) column := by
      refine follows_of_open (r := ⟨column, text⟩) (fun s hs => ?_) ?_
      · have hdeep := hbody.le_column s hs
        show column ≤ s.column
        omega
      · cases body with
        | nil => exact absurd rfl hne
        | cons s body => simpa using hbody.closed_last
    obtain ⟨hlaid, hexit⟩ := ih _ hback
    refine ⟨⟨hentry, ?_⟩, ?_⟩
    · rw [laidOut_append]
      refine ⟨hlaidBody, ?_⟩
      rwa [List.append_assoc, List.singleton_append]
    · rwa [List.append_assoc, List.cons_append] at hexit

end Suite

end TypedOps.Script
