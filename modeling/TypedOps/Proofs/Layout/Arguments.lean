import TypedOps.Layout.Arguments
import TypedOps.Proofs.Text.Pieces

/-!
# `TypedOps.Proofs.Layout.Arguments`: arguments joined and cut apart again

`Balanced` is the grammar of an argument: brackets come in pairs, a comma stands inside a pair or
inside a string literal, and in a literal a backslash takes the next code point with it
(`LiteralBody`). `splitArguments` knows brackets and quotes, but no backslashes: a quote ends a
literal for it even where the grammar says that it is escaped.

* `argumentPieces_cases`: what one step of cutting comes to, the first comma that ends an argument
  or none at all. It is what both directions below are read off.
* `splitArguments_join_iff`: so joined arguments come apart as they were exactly when they are
  `Legible`, that is, when each stays in one piece and leaves nothing open for those behind it.
  Arguments whose literals never hold their own quote are legible.
* `splitArguments_join_escaped`: an escaped quote in front of a comma is enough to lose one.
-/

set_option autoImplicit false

namespace TypedOps.Layout

open Text

/-! ### The grammar -/

/-- The quotes of string literals, of either kind, as `splitArguments` knows them. -/
def literalQuotes : Text := ['"', '\'']

/-- The brackets that open a pair for `splitArguments`. -/
def openingBrackets : Text := ['(', '[', '\x7b']

/-- The brackets that close a pair, in the order of `openingBrackets`. -/
def closingBrackets : Text := [')', ']', '\x7d']

/-- What may stand between the quotes of a string literal. The `quote` itself may only stand there
behind a backslash. -/
inductive LiteralBody (quote : Char) : Text → Prop
  | nil : LiteralBody quote []
  | plain {c : Char} {t : Text} (hquote : c ≠ quote) (hbackslash : c ≠ '\\') :
      LiteralBody quote t → LiteralBody quote (c :: t)
  | escaped {c : Char} {t : Text} : LiteralBody quote t → LiteralBody quote ('\\' :: c :: t)

/-- A text whose brackets come in pairs outside string literals. `Body` says what stands between the
quotes of a literal, and `inside` whether commas may stand in the text. Brackets of two kinds make a
pair, too: nothing below asks for more. -/
inductive Balanced (Body : Char → Text → Prop) : (inside : Bool) → Text → Prop
  | nil {inside : Bool} : Balanced Body inside []
  | other {inside : Bool} {c : Char} {t : Text} (hquote : c ∉ literalQuotes)
      (hbracket : c ∉ openingBrackets ∧ c ∉ closingBrackets) (hcomma : inside = false → c ≠ ',') :
      Balanced Body inside t → Balanced Body inside (c :: t)
  | literal {inside : Bool} {quote : Char} {body t : Text} (hquote : quote ∈ literalQuotes)
      (hbody : Body quote body) :
      Balanced Body inside t → Balanced Body inside (quote :: (body ++ quote :: t))
  | pair {inside : Bool} {opening closing : Char} {body t : Text}
      (hopening : opening ∈ openingBrackets) (hclosing : closing ∈ closingBrackets) :
      Balanced Body true body → Balanced Body inside t →
        Balanced Body inside (opening :: (body ++ closing :: t))

/-- The text of an argument: not empty, without white space around it, and `Balanced` with no comma
outside brackets and literals. -/
structure IsArgument (t : Text) : Prop where
  ne_nil : t ≠ []
  /-- No white space stands around it. -/
  stripped : strip t = t
  balanced : Balanced LiteralBody false t

/-- A `Balanced` text outside brackets does not begin with a comma. -/
theorem Balanced.head?_ne_comma {Body : Char → Text → Prop} {t : Text}
    (h : Balanced Body false t) : t.head? ≠ some ',' := by
  -- A comma alone could only come in by `other`, which excludes it outside brackets.
  cases h with
  | nil => simp
  | other _ _ hcomma =>
    intro heq
    exact hcomma rfl (Option.some.inj heq)
  | literal hquote =>
    intro heq
    rw [Option.some.inj heq] at hquote
    exact absurd hquote (by decide)
  | pair hopening =>
    intro heq
    rw [Option.some.inj heq] at hopening
    exact absurd hopening (by decide)

/-! ### Texts in one piece -/

namespace ArgState

/-- The state of the splitter behind a text, which takes one `next` for each code point. -/
def after (s : ArgState) (t : Text) : ArgState := t.foldl ArgState.next s

/-- Whether no code point of a text ends an argument (`endsAt`), when the text is read from the
state on. -/
def Uncut (s : ArgState) : Text → Prop
  | [] => True
  | c :: t => s.endsAt c = false ∧ (s.next c).Uncut t

/-- Whether a text is `Uncut` can be decided along the text. -/
instance decidableUncut : (s : ArgState) → (t : Text) → Decidable (s.Uncut t)
  | _, [] => isTrue trivial
  | s, c :: t =>
    have := decidableUncut (s.next c) t
    inferInstanceAs (Decidable (s.endsAt c = false ∧ (s.next c).Uncut t))

/-- A text that stays in one piece (`Uncut`) and leaves the state as it was. -/
structure Passes (s : ArgState) (t : Text) : Prop where
  uncut : s.Uncut t
  after_eq : s.after t = s

instance (s : ArgState) (t : Text) : Decidable (s.Passes t) :=
  decidable_of_iff (s.Uncut t ∧ s.after t = s) ⟨fun h => ⟨h.1, h.2⟩, fun h => ⟨h.1, h.2⟩⟩

/-- The state `after` two texts is the state after the second, from that after the first on. -/
theorem after_append (s : ArgState) (t u : Text) : s.after (t ++ u) = (s.after t).after u :=
  List.foldl_append

/-- Two texts are `Uncut` together when each is so from the state in which it is read. -/
theorem uncut_append (s : ArgState) (t u : Text) :
    s.Uncut (t ++ u) ↔ s.Uncut t ∧ (s.after t).Uncut u := by
  induction t generalizing s with
  | nil => exact (and_iff_right trivial).symm
  | cons c t ih =>
    show s.endsAt c = false ∧ (s.next c).Uncut (t ++ u) ↔
      (s.endsAt c = false ∧ (s.next c).Uncut t) ∧ ((s.next c).after t).Uncut u
    rw [ih, and_assoc]

/-- The empty text `Passes` in every state. -/
theorem passes_nil (s : ArgState) : s.Passes [] := ⟨trivial, rfl⟩

/-- Two texts with `Passes` have it together, since the first leaves the state to the second. -/
theorem Passes.append {s : ArgState} {t u : Text} (ht : s.Passes t) (hu : s.Passes u) :
    s.Passes (t ++ u) := by
  refine ⟨(uncut_append s t u).mpr ⟨ht.uncut, ?_⟩, ?_⟩
  · rw [ht.after_eq]
    exact hu.uncut
  · rw [after_append, ht.after_eq, hu.after_eq]

/-- Where an argument `endsAt` a code point, no literal and no bracket is open and a comma is read.
-/
theorem eq_default_of_endsAt {s : ArgState} {c : Char} (h : s.endsAt c = true) :
    s = {} ∧ c = ',' := by
  obtain ⟨quote?, depth⟩ := s
  simp only [endsAt, Bool.and_eq_true, Option.isNone_iff_eq_none, beq_iff_eq] at h
  obtain ⟨⟨rfl, rfl⟩, rfl⟩ := h
  exact ⟨rfl, rfl⟩

end ArgState

open ArgState (Uncut)

/-- There is always one of the `argumentPieces`, also of the empty text. -/
theorem argumentPieces_ne_nil (s : ArgState) (t : Text) : argumentPieces s t ≠ [] := by
  cases t with
  | nil => simp [argumentPieces]
  | cons c t =>
    rw [argumentPieces]
    split
    · simp
    · split <;> simp

/-- A text that is `Uncut` makes the first of the `argumentPieces` longer. -/
theorem argumentPieces_append {s : ArgState} {t : Text} (h : s.Uncut t) (rest : Text) :
    argumentPieces s (t ++ rest) = inFront t (argumentPieces (s.after t) rest) := by
  induction t generalizing s with
  | nil =>
    obtain ⟨piece, pieces, hpieces⟩ := List.exists_cons_of_ne_nil (argumentPieces_ne_nil s rest)
    show argumentPieces s rest = inFront [] (argumentPieces s rest)
    rw [hpieces]
    rfl
  | cons c t ih =>
    obtain ⟨hc, ht⟩ := h
    show argumentPieces s (c :: (t ++ rest)) =
      inFront (c :: t) (argumentPieces ((s.next c).after t) rest)
    rw [argumentPieces, if_neg (by simp [hc]), ih ht]
    cases argumentPieces ((s.next c).after t) rest <;> rfl

/-- At a comma outside brackets and literals a new one of the `argumentPieces` begins. -/
theorem argumentPieces_comma (rest : Text) :
    argumentPieces {} (',' :: rest) = [] :: argumentPieces {} rest := by
  rw [argumentPieces]
  rfl

/-- A text is one of the `argumentPieces`, or a comma ends its first one and the rest is read from
the first state on. -/
theorem argumentPieces_cases (s : ArgState) (t : Text) :
    s.Uncut t ∧ argumentPieces s t = [t] ∨
      ∃ first behind, t = first ++ ',' :: behind ∧ s.Uncut first ∧ s.after first = {} ∧
        argumentPieces s t = first :: argumentPieces {} behind := by
  -- The induction follows the state along the text, as the cutting does.
  induction t generalizing s with
  | nil => exact .inl ⟨trivial, rfl⟩
  | cons c t ih =>
    by_cases hends : s.endsAt c = true
    · obtain ⟨rfl, rfl⟩ := ArgState.eq_default_of_endsAt hends
      exact .inr ⟨[], t, rfl, trivial, rfl, argumentPieces_comma t⟩
    · have hc : s.endsAt c = false := by simpa using hends
      rw [argumentPieces, if_neg hends]
      rcases ih (s.next c) with ⟨huncut, hpieces⟩ | ⟨first, behind, rfl, huncut, hafter, hpieces⟩
      · rw [hpieces]
        exact .inl ⟨⟨hc, huncut⟩, rfl⟩
      · rw [hpieces]
        exact .inr ⟨c :: first, behind, rfl, ⟨hc, huncut⟩, hafter, rfl⟩

/-- A list is its `argumentPieces` with the commas put back, so no code point of it is lost. -/
theorem join_argumentPieces (s : ArgState) (t : Text) : join [','] (argumentPieces s t) = t := by
  induction t generalizing s with
  | nil => rfl
  | cons c t ih =>
    -- There is always a piece behind the code point, so joining has something to put it in front
    -- of.
    obtain ⟨piece, pieces, hpieces⟩ :=
      List.exists_cons_of_ne_nil (argumentPieces_ne_nil (s.next c) t)
    have hrest := ih (s.next c)
    by_cases hends : s.endsAt c = true
    · obtain ⟨rfl, rfl⟩ := ArgState.eq_default_of_endsAt hends
      have hnext : ({} : ArgState).next ',' = {} := by decide
      rw [hnext] at hpieces hrest
      rw [argumentPieces_comma, hpieces]
      show ',' :: join [','] (piece :: pieces) = ',' :: t
      rw [← hpieces, hrest]
    · rw [argumentPieces, if_neg hends, hpieces]
      rw [hpieces] at hrest
      rw [← hrest]
      cases pieces <;> rfl

/-! ### Arguments of a list -/

/-- The argument that a piece holds, if it is not blank: the piece without the white space that
`strip` takes off. -/
def pieceArgument (piece : Text) : List Text := if strip piece = [] then [] else [strip piece]

/-- A list that is `Uncut` has the argument of its one piece. -/
theorem splitArguments_of_uncut {t : Text} (h : Uncut {} t) :
    splitArguments t = pieceArgument t := by
  have hpieces := argumentPieces_append h []
  rw [List.append_nil] at hpieces
  rw [splitArguments, hpieces, pieceArgument]
  by_cases hblank : strip t = [] <;> simp [argumentPieces, inFront, hblank]

/-- The first argument of a list, up to a comma at which nothing is open, is put by `splitArguments`
in front of those behind it. -/
theorem splitArguments_append_comma {first : Text} (h : Uncut {} first)
    (hafter : ArgState.after {} first = {}) (behind : Text) :
    splitArguments (first ++ ',' :: behind) = pieceArgument first ++ splitArguments behind := by
  rw [splitArguments, argumentPieces_append h, hafter, argumentPieces_comma, splitArguments,
    pieceArgument]
  by_cases hblank : strip first = [] <;> simp [inFront, hblank]

/-- White space in front of a list makes no difference to `splitArguments`, which strips each piece.
-/
theorem splitArguments_space (t : Text) : splitArguments (' ' :: t) = splitArguments t := by
  have hstrip : ∀ piece, strip (' ' :: piece) = strip piece := by
    intro piece
    show trimEnd isBlank ((' ' :: piece).dropWhile isBlank) = _
    rw [List.dropWhile_cons_of_pos (by decide)]
    rfl
  have hnext : ({} : ArgState).next ' ' = {} := by decide
  obtain ⟨piece, pieces, hpieces⟩ := List.exists_cons_of_ne_nil (argumentPieces_ne_nil {} t)
  rw [splitArguments, splitArguments, argumentPieces, if_neg (by decide), hnext, hpieces]
  simp only [List.map_cons, hstrip]

/-! ### Arguments joined -/

/-- Whether arguments that `join` put together come apart again: each stays in one piece, and
whatever is left open behind one, it is the last. -/
structure Legible (args : List Text) : Prop where
  uncut : ∀ a ∈ args, Uncut {} a
  closed : ∀ a ∈ args.dropLast, ArgState.after {} a = {}

instance (args : List Text) : Decidable (Legible args) :=
  decidable_of_iff ((∀ a ∈ args, Uncut {} a) ∧ ∀ a ∈ args.dropLast, ArgState.after {} a = {})
    ⟨fun h => ⟨h.1, h.2⟩, fun h => ⟨h.uncut, h.closed⟩⟩

/-- An argument with others behind it is `Legible` if it stays in one piece, leaves nothing open,
and the others are legible. -/
theorem legible_cons_cons (a b : Text) (args : List Text) :
    Legible (a :: b :: args) ↔
      Uncut {} a ∧ ArgState.after {} a = {} ∧ Legible (b :: args) := by
  constructor
  · intro h
    obtain ⟨huncut, hrest⟩ := List.forall_mem_cons.mp h.uncut
    obtain ⟨hclosed, hothers⟩ := List.forall_mem_cons.mp h.closed
    exact ⟨huncut, hclosed, hrest, hothers⟩
  · intro h
    obtain ⟨huncut, hclosed, hrest⟩ := h
    exact ⟨List.forall_mem_cons.mpr ⟨huncut, hrest.uncut⟩,
      List.forall_mem_cons.mpr ⟨hclosed, hrest.closed⟩⟩

/-- The `pieceArgument` of a piece that is not blank and has no white space around it is the piece.
-/
theorem pieceArgument_of_stripped {a : Text} (hne : a ≠ []) (hstripped : strip a = a) :
    pieceArgument a = [a] := by
  rw [pieceArgument, hstripped, if_neg hne]

/-- In a `join` of arguments with others behind the first, a comma and a blank stand between. -/
theorem join_cons_cons (a b : Text) (args : List Text) :
    join ", " (a :: b :: args) = a ++ ',' :: (' ' :: join ", " (b :: args)) := by
  simp [join]

/-- Arguments that are `Legible` come back when they are joined and split. -/
theorem splitArguments_join {args : List Text} (hargs : ∀ a ∈ args, a ≠ [] ∧ strip a = a)
    (h : Legible args) : splitArguments (join ", " args) = args := by
  induction args with
  | nil => rfl
  | cons a args ih =>
    obtain ⟨⟨hne, hstripped⟩, hrest⟩ := List.forall_mem_cons.mp hargs
    have hown := pieceArgument_of_stripped hne hstripped
    cases args with
    | nil =>
      show splitArguments a = [a]
      rw [splitArguments_of_uncut (h.uncut a List.mem_cons_self), hown]
    | cons b args =>
      -- The first comma that is not part of an argument stands behind the first one, and the rest
      -- is split from a fresh state.
      obtain ⟨huncut, hafter, hothers⟩ := (legible_cons_cons a b args).mp h
      rw [join_cons_cons, splitArguments_append_comma huncut hafter, hown, splitArguments_space,
        ih hrest hothers]
      rfl

/-- The first piece of a list that begins with a text that `IsArgument` is not blank, and begins
like it. -/
theorem strip_first_ne_nil {a first behind rest : Text} (ha : IsArgument a)
    (h : a ++ rest = first ++ ',' :: behind) : strip first ≠ [] := by
  intro hblank
  obtain ⟨front, behind', hfirst, hfront, hbehind'⟩ := exists_strip_append first
  have hall : ∀ c ∈ first, isBlank c = true := by
    rw [hfirst, hblank]
    exact List.forall_mem_append.mpr ⟨hfront, hbehind'⟩
  -- The argument would begin with what the list begins with: white space or a comma.
  obtain ⟨c, t, rfl⟩ := List.exists_cons_of_ne_nil ha.ne_nil
  have hc : isBlank c = false := by
    have hhead := head?_strip (c :: t)
    rw [ha.stripped] at hhead
    exact hhead c rfl
  cases first with
  | nil =>
    obtain ⟨rfl, -⟩ := List.cons.inj h
    exact ha.balanced.head?_ne_comma rfl
  | cons d first =>
    obtain ⟨rfl, -⟩ := List.cons.inj h
    rw [hall c List.mem_cons_self] at hc
    cases hc

/-- If the first piece of joined arguments is the first of them when it is stripped, it is that
argument and the rest are the others. -/
theorem eq_of_strip_first {a first behind rest : Text} (ha : IsArgument a)
    (h : a ++ ',' :: rest = first ++ ',' :: behind) (hstrip : strip first = a) :
    first = a ∧ behind = rest := by
  obtain ⟨front, trail, hfirst, hfront, htrail⟩ := exists_strip_append first
  rw [hstrip] at hfirst
  obtain ⟨c, t, rfl⟩ := List.exists_cons_of_ne_nil ha.ne_nil
  have hc : isBlank c = false := by
    have hhead := head?_strip (c :: t)
    rw [ha.stripped] at hhead
    exact hhead c rfl
  have hnoFront : front = [] := by
    cases front with
    | nil => rfl
    | cons d front =>
      rw [hfirst] at h
      obtain ⟨rfl, -⟩ := List.cons.inj h
      rw [hfront c List.mem_cons_self] at hc
      cases hc
  subst hnoFront hfirst
  -- Behind the argument stands a comma, so no white space does.
  have htail : ',' :: rest = trail ++ ',' :: behind := by
    have h' : (c :: t) ++ ',' :: rest = (c :: t) ++ (trail ++ ',' :: behind) := by
      simpa using h
    exact List.append_cancel_left h'
  cases trail with
  | nil =>
    obtain ⟨-, rfl⟩ := List.cons.inj htail
    exact ⟨by simp, rfl⟩
  | cons d trail =>
    obtain ⟨rfl, -⟩ := List.cons.inj htail
    exact absurd (htrail ',' List.mem_cons_self) (by decide)

/-- What `IsArgument` comes back from `splitArguments` when it stays in one piece, and only then. -/
theorem splitArguments_eq_singleton_iff {a : Text} (ha : IsArgument a) :
    splitArguments a = [a] ↔ Uncut {} a := by
  have hown := pieceArgument_of_stripped ha.ne_nil ha.stripped
  constructor
  · intro h
    rcases argumentPieces_cases {} a with ⟨huncut, -⟩ | ⟨first, behind, hcut, huncut, hafter, -⟩
    · exact huncut
    · -- A first piece that ends in front of a comma is too short to be the argument.
      exfalso
      have hwhole : a ++ [] = first ++ ',' :: behind := by rw [List.append_nil, hcut]
      have hne := strip_first_ne_nil ha hwhole
      rw [hcut, splitArguments_append_comma huncut hafter, ← hcut, pieceArgument, if_neg hne] at h
      have hfirst : strip first = a := (List.cons.inj h).1
      have hlength := (isInfix_strip first).length_le
      rw [hfirst, hcut, List.length_append, List.length_cons] at hlength
      omega
  · intro h
    rw [splitArguments_of_uncut h, hown]

/-! ### Literals that hold no quote of their own -/

namespace ArgState

/-- For `next`, a code point without a meaning of its own changes nothing about the state. -/
theorem next_other {c : Char} (depth : Int) (hquote : c ∉ literalQuotes)
    (hbracket : c ∉ openingBrackets ∧ c ∉ closingBrackets) :
    next ⟨none, depth⟩ c = ⟨none, depth⟩ := by
  simp only [literalQuotes, openingBrackets, closingBrackets, List.mem_cons, List.not_mem_nil,
    or_false, not_or] at hquote hbracket
  simp [next, hquote, hbracket]

/-- For `next`, a quote outside literals opens one. -/
theorem next_quote {quote : Char} (depth : Int) (h : quote ∈ literalQuotes) :
    next ⟨none, depth⟩ quote = ⟨some quote, depth⟩ := by
  simp only [literalQuotes, List.mem_cons, List.not_mem_nil, or_false] at h
  rcases h with rfl | rfl <;> rfl

/-- For `next`, an opening bracket leads one level down. -/
theorem next_opening {opening : Char} (depth : Int) (h : opening ∈ openingBrackets) :
    next ⟨none, depth⟩ opening = ⟨none, depth + 1⟩ := by
  simp only [openingBrackets, List.mem_cons, List.not_mem_nil, or_false] at h
  rcases h with rfl | rfl | rfl <;> rfl

/-- For `next`, a closing bracket leads one level up again. -/
theorem next_closing {closing : Char} (depth : Int) (h : closing ∈ closingBrackets) :
    next ⟨none, depth⟩ closing = ⟨none, depth - 1⟩ := by
  simp only [closingBrackets, List.mem_cons, List.not_mem_nil, or_false] at h
  rcases h with rfl | rfl | rfl <;> rfl

/-- Only a comma has `endsAt`, whatever the state. -/
theorem endsAt_of_ne {s : ArgState} {c : Char} (h : c ≠ ',') : s.endsAt c = false := by
  simp [endsAt, h]

/-- Within a literal or a pair of brackets no code point has `endsAt`. -/
theorem endsAt_inside {s : ArgState} (h : s.quote?.isSome ∨ s.depth ≠ 0) (c : Char) :
    s.endsAt c = false := by
  rw [Bool.eq_false_iff]
  intro hends
  obtain ⟨rfl, -⟩ := eq_default_of_endsAt hends
  rcases h with h | h
  · cases h
  · exact h rfl

/-- A text without quotes, brackets and commas has `Passes` in the state in which nothing is open.
-/
theorem passes_of_not_mem {t : Text} (h : ∀ c ∈ literalQuotes ++ openingBrackets ++
    closingBrackets ++ [','], c ∉ t) : Passes {} t := by
  induction t with
  | nil => exact passes_nil _
  | cons c t ih =>
    have hfree : ∀ d ∈ literalQuotes ++ openingBrackets ++ closingBrackets ++ [','],
        d ≠ c ∧ d ∉ t := fun d hd => not_or.mp (mt List.mem_cons.mpr (h d hd))
    have hnext : next {} c = {} :=
      next_other 0 (fun hc => (hfree c (by simp [hc])).1 rfl)
        ⟨fun hc => (hfree c (by simp [hc])).1 rfl, fun hc => (hfree c (by simp [hc])).1 rfl⟩
    have hends : endsAt {} c = false := endsAt_of_ne fun hc => (hfree ',' (by simp)).1 hc.symm
    have hsingle : Passes {} [c] := ⟨⟨hends, trivial⟩, hnext⟩
    exact hsingle.append (ih fun d hd => (hfree d hd).2)

/-- What stands between the quotes of a literal has `Passes` if the quote does not stand there. -/
theorem passes_literal {quote : Char} {body : Text} (depth : Int) (h : quote ∉ body) :
    Passes ⟨some quote, depth⟩ body := by
  induction body with
  | nil => exact passes_nil _
  | cons c body ih =>
    obtain ⟨hc, hbody⟩ := not_or.mp (mt List.mem_cons.mpr h)
    have hnext : next ⟨some quote, depth⟩ c = ⟨some quote, depth⟩ := if_neg (Ne.symm hc)
    have hrest := ih hbody
    refine ⟨⟨endsAt_inside (.inl rfl) c, ?_⟩, ?_⟩
    · rw [hnext]
      exact hrest.uncut
    · show (next _ c).after body = _
      rw [hnext]
      exact hrest.after_eq

/-- A text between two code points has `Passes`, if the first changes the state, the second changes
it back and the text passes in between. -/
theorem passes_enclosed {s inner : ArgState} {first last : Char} {body : Text}
    (hends : first ≠ ',' ∧ last ≠ ',') (hfirst : s.next first = inner) (hbody : inner.Passes body)
    (hlast : inner.next last = s) : s.Passes (first :: (body ++ [last])) := by
  refine ⟨⟨endsAt_of_ne hends.1, ?_⟩, ?_⟩
  · rw [hfirst, uncut_append, hbody.after_eq]
    exact ⟨hbody.uncut, endsAt_of_ne hends.2, trivial⟩
  · show (s.next first).after (body ++ [last]) = s
    rw [hfirst, after_append, hbody.after_eq]
    exact hlast

end ArgState

/-- A `Balanced` text passes, on the level of the arguments and in brackets, if no literal in it
holds its own quote. -/
theorem Balanced.passes {inside : Bool} {t : Text}
    (h : Balanced (fun quote body => quote ∉ body) inside t) {depth : Int} (hdepth : 0 ≤ depth)
    (hinside : inside = true → 0 < depth) : ArgState.Passes ⟨none, depth⟩ t := by
  -- One case for each constructor: what it puts in front of `t` leads back to the state.
  induction h generalizing depth with
  | nil => exact ArgState.passes_nil _
  | @other inside c t hquote hbracket hcomma _ ih =>
    have hnext := ArgState.next_other depth hquote hbracket
    have hends : ArgState.endsAt ⟨none, depth⟩ c = false := by
      cases inside with
      | false => exact ArgState.endsAt_of_ne (hcomma rfl)
      | true =>
        have hpositive := hinside rfl
        exact ArgState.endsAt_inside (.inr (by show depth ≠ 0; omega)) c
    have hsingle : ArgState.Passes ⟨none, depth⟩ [c] := ⟨⟨hends, trivial⟩, hnext⟩
    exact hsingle.append (ih hdepth hinside)
  | @literal inside quote body t hquote hbody _ ih =>
    have hne : quote ≠ ',' := by
      rintro rfl
      exact absurd hquote (by decide)
    have hclose : ArgState.next ⟨some quote, depth⟩ quote = ⟨none, depth⟩ := if_pos rfl
    have hliteral := ArgState.passes_enclosed ⟨hne, hne⟩ (ArgState.next_quote depth hquote)
      (ArgState.passes_literal depth hbody) hclose
    have hall := hliteral.append (ih hdepth hinside)
    simpa using hall
  | @pair inside opening closing body t hopening hclosing _ _ ihbody ih =>
    have hne : opening ≠ ',' ∧ closing ≠ ',' := by
      constructor
      · rintro rfl
        exact absurd hopening (by decide)
      · rintro rfl
        exact absurd hclosing (by decide)
    have hclose : ArgState.next ⟨none, depth + 1⟩ closing = ⟨none, depth⟩ := by
      rw [ArgState.next_closing (depth + 1) hclosing, Int.add_sub_cancel]
    have hbody : ArgState.Passes ⟨none, depth + 1⟩ body := ihbody (by omega) fun _ => by omega
    have hpair := ArgState.passes_enclosed hne (ArgState.next_opening depth hopening) hbody hclose
    have hall := hpair.append (ih hdepth hinside)
    simpa using hall

/-- Texts each of which passes the first state are `Legible` together. -/
theorem legible_of_passes {args : List Text} (h : ∀ a ∈ args, ArgState.Passes {} a) :
    Legible args :=
  ⟨fun a ha => (h a ha).uncut, fun a ha => (h a ((List.dropLast_sublist args).subset ha)).after_eq⟩

/-- A text that comes back wherever it stands among such: not blank, stripped, and with `Passes` for
the state in which nothing is open. -/
structure Item (a : Text) : Prop where
  ne_nil : a ≠ []
  stripped : strip a = a
  passes : ArgState.Passes {} a

instance (a : Text) : Decidable (Item a) :=
  decidable_of_iff (a ≠ [] ∧ strip a = a ∧ ArgState.Passes {} a)
    ⟨fun h => ⟨h.1, h.2.1, h.2.2⟩, fun h => ⟨h.ne_nil, h.stripped, h.passes⟩⟩

/-- Arguments that are `Item`s come back when they are joined and split. -/
theorem splitArguments_items {args : List Text} (h : ∀ a ∈ args, Item a) :
    splitArguments (join ", " args) = args :=
  splitArguments_join (fun a ha => ⟨(h a ha).ne_nil, (h a ha).stripped⟩)
    (legible_of_passes fun a ha => (h a ha).passes)

/-! ### The main result -/

/-- Joined arguments come apart by `splitArguments` as they were exactly when they are `Legible`.
They are if no string literal holds its own quote, which it can only do behind a backslash. -/
theorem splitArguments_join_iff (args : List Text) (hargs : ∀ a ∈ args, IsArgument a) :
    (splitArguments (join ", " args) = args ↔ Legible args) ∧
      ((∀ a ∈ args, Balanced (fun quote body => quote ∉ body) false a) → Legible args) := by
  refine ⟨⟨?_, splitArguments_join fun a ha => ⟨(hargs a ha).ne_nil, (hargs a ha).stripped⟩⟩,
    fun h => legible_of_passes fun a ha =>
      (h a ha).passes (Int.le_refl 0) fun hinside => by cases hinside⟩
  induction args with
  | nil => exact fun _ => ⟨by simp, by simp⟩
  | cons a args ih =>
    obtain ⟨ha, hrest⟩ := List.forall_mem_cons.mp hargs
    cases args with
    | nil =>
      intro h
      have huncut := (splitArguments_eq_singleton_iff ha).mp h
      exact ⟨List.forall_mem_singleton.mpr huncut, by simp⟩
    | cons b args =>
      rw [join_cons_cons, legible_cons_cons]
      intro h
      rcases argumentPieces_cases {} (a ++ ',' :: (' ' :: join ", " (b :: args))) with
        ⟨huncut, -⟩ | ⟨first, behind, hcut, huncut, hafter, -⟩
      · -- One piece gives one argument at most.
        exfalso
        rw [splitArguments_of_uncut huncut] at h
        have hlength := congrArg List.length h
        unfold pieceArgument at hlength
        split at hlength <;> simp at hlength
      · have hne := strip_first_ne_nil ha hcut
        -- The first piece is the first argument, so its comma is the one between the arguments and
        -- the rest is split by itself.
        rw [hcut, splitArguments_append_comma huncut hafter, pieceArgument, if_neg hne] at h
        have hothers : splitArguments behind = b :: args := (List.cons.inj h).2
        obtain ⟨rfl, rfl⟩ := eq_of_strip_first ha hcut (List.cons.inj h).1
        rw [splitArguments_space] at hothers
        exact ⟨huncut, hafter, ih hrest hothers⟩

/-- A call, and a literal in which two quotes are escaped and a comma stands behind them. They are
`Legible`. -/
def sampleArguments : List Text := ["f(x, [y])", "\"\\\"x\\\", \""]

/-- For the splitter the second escaped quote of `sampleArguments` opens a literal again, and both
arguments come back. -/
theorem splitArguments_join_iff_pair :
    (∀ a ∈ sampleArguments, IsArgument a) ∧ Legible sampleArguments ∧
      splitArguments (join ", " sampleArguments) = sampleArguments := by
  -- Both sample arguments are balanced, the second one only if a backslash covers a quote.
  have hcall : Balanced LiteralBody false "f(x, [y])" := by
    have hinner : Balanced LiteralBody true ('[' :: ("y" ++ ']' :: [])) :=
      .pair (by decide) (by decide) (.other (by decide) (by decide) (by decide) .nil) .nil
    have hlist : Balanced LiteralBody true ('x' :: ',' :: ' ' :: ('[' :: ("y" ++ ']' :: []))) :=
      .other (by decide) (by decide) (by decide) (.other (by decide) (by decide) (by decide)
        (.other (by decide) (by decide) (by decide) hinner))
    exact .other (by decide) (by decide) (by decide) (.pair (by decide) (by decide) hlist .nil)
  have hliteral : Balanced LiteralBody false "\"\\\"x\\\", \"" := by
    have hbody : LiteralBody '"' "\\\"x\\\", " :=
      .escaped (.plain (by decide) (by decide) (.escaped
        (.plain (by decide) (by decide) (.plain (by decide) (by decide) .nil))))
    exact .literal (by decide) hbody .nil
  have hargs : ∀ a ∈ sampleArguments, IsArgument a :=
    List.forall_mem_cons.mpr ⟨⟨by decide, by decide, hcall⟩,
      List.forall_mem_singleton.mpr ⟨by decide, by decide, hliteral⟩⟩
  have hlegible : Legible sampleArguments := by decide
  exact ⟨hargs, hlegible, (splitArguments_join_iff sampleArguments hargs).1.mpr hlegible⟩

/-- A literal in which one quote is escaped, in front of a comma. It is not `Legible`, since the
reader of quotes knows no escapes. -/
def escapedQuote : Text := "\"\\\",\""

/-- The literal `escapedQuote` is an argument, and for the splitter it is two. -/
theorem splitArguments_join_escaped :
    IsArgument escapedQuote ∧
      splitArguments (join ", " [escapedQuote]) = ["\"\\\"".toList, "\"".toList] ∧
      splitArguments (join ", " [escapedQuote]) ≠ [escapedQuote] := by
  have hliteral : Balanced LiteralBody false escapedQuote := by
    have hbody : LiteralBody '"' "\\\"," := .escaped (.plain (by decide) (by decide) .nil)
    exact .literal (by decide) hbody .nil
  exact ⟨⟨by decide, by decide, hliteral⟩, by decide, by decide⟩

end TypedOps.Layout
