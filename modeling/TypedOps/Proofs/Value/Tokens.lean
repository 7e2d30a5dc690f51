import TypedOps.Proofs.Text.Quoted
import TypedOps.Proofs.Text.TripleQuoted
import TypedOps.Value

/-!
# `TypedOps.Proofs.Value.Tokens`: the tokens of a literal

A literal is read in two steps, and the first of them is to cut it into tokens: brackets, commas,
and the values that need neither. `Literal.tokens?` does it from the left. It is not part of what
the library runs: it is the reader that spellings are held against, so it knows nothing of how they
are made and refuses whatever it is not sure of.

* A word is as long as it can be. It is one of three names, or an integer in decimal: a sign may
  stand in front, a zero in front of other digits may not, and there are `Integer.digitLimit` digits
  at most.
* A string ends at the first of its own quotes that no backslash covers, on the same line. What
  stands between is read for escapes, and characters are not written by name.

`Lexes` says that a text is cut into some tokens whatever stands behind it, as long as this does not
go on with a word. Integers that are not long (`lexes_ofInt`) and strings (`lexes_quoted`) are cut
into the one token for their value.
-/

set_option autoImplicit false

namespace TypedOps.Literal

open Text
open Text.TripleQuoted (mayStand literalEscape? numbered? numbered?_padded inert_padded)

/-! ### The reader -/

/-- The brackets of lists, and the ones of tuples and of groups. Each is a `Token` twice, for either
side. -/
inductive Bracket where
  | square
  | round
deriving DecidableEq, Repr

/-- What a literal is cut into by `tokens?`. -/
inductive Token where
  | opening (b : Bracket)
  | closing (b : Bracket)
  | comma
  | value (v : Value)

/-- Brackets and commas are a `Token` each, by themselves. -/
def mark? : Char → Option Token
  | '[' => some (.opening .square)
  | ']' => some (.closing .square)
  | '(' => some (.opening .round)
  | ')' => some (.closing .round)
  | ',' => some .comma
  | _ => none

/-- Whether a code point goes on with a word, which `word?` then reads. -/
def isWordPart (c : Char) : Bool := c.isAlphanum || c == '_' || c == '.'

/-- The number that decimal digits stand for, up to as many of them as `Integer.decimal?` reads. -/
def natural? (digits : Text) : Option Nat :=
  if digits ≠ [] ∧ digits.all (isDigitOf 10) ∧ (digits.head? = some '0' → digits = ['0']) ∧
      digits.length ≤ Integer.digitLimit then
    some (digitsValue 10 digits)
  else none

/-- The integer that a word stands for, with a sign in front or without. Its digits are read by
`natural?`. -/
def integer? : Text → Option Int
  | '-' :: digits => (natural? digits).map fun n : Nat => -(n : Int)
  | digits => (natural? digits).map Int.ofNat

/-- The value that a word stands for: an `integer?`, or one of the three names. -/
def word? (w : Text) : Option Value :=
  match integer? w with
  | some i => some (.int i)
  | none =>
    if w = "None" then some .nothing
    else if w = "True" then some (.bool true)
    else if w = "False" then some (.bool false)
    else none

/-- Whether a code point may stand in a string: on one line what `mayStand` in a literal. -/
def standsInString (c : Char) : Bool := mayStand c && c != '\n'

/-- What stands in front of the first `quote` that no backslash covers. -/
def body? (quote : Char) : Text → Option Text
  | [] => none
  | '\\' :: c :: rest =>
    if standsInString c then (['\\', c] ++ ·) <$> body? quote rest else none
  | c :: rest =>
    if c = quote then some []
    else if standsInString c then ([c] ++ ·) <$> body? quote rest
    else none

/-- The tokens that begin with `c`, and how many code points they take behind it. A blank is no
token. -/
def token? (c : Char) (rest : Text) : Option (List Token × Nat) :=
  match mark? c with
  | some mark => some ([mark], 0)
  | none =>
    if c = ' ' then some ([], 0)
    else if c = '\'' ∨ c = '"' then do
      let body ← body? c rest
      let t ← readEscapes literalEscape? (fun c => [c]) 0 body
      return ([.value (.text t)], body.length + 1)
    else if isWordPart c ∨ c = '-' then do
      let behind := rest.takeWhile isWordPart
      return ([.value (← word? (c :: behind))], behind.length)
    else none

/-- The tokens of a text whose first `skip` code points are dropped. -/
def tokens? : (skip : Nat) → Text → Option (List Token)
  | _, [] => some []
  | skip + 1, _ :: rest => tokens? skip rest
  | 0, c :: rest => do
    let (found, used) ← token? c rest
    (found ++ ·) <$> tokens? used rest

/-! ### Cutting piece by piece -/

/-- Whether a word that stands in front of `rest` ends there. -/
def Ends (rest : Text) : Prop := ∀ c ∈ rest.head?, isWordPart c = false

/-- In front of anything that ends a word, the text `s` is cut into the tokens `ts`. -/
def Lexes (s : Text) (ts : List Token) : Prop :=
  ∀ rest, Ends rest → tokens? 0 (s ++ rest) = (ts ++ ·) <$> tokens? 0 rest

/-- A code point that goes on with no word `Ends` one. -/
theorem ends_cons {c : Char} (hc : isWordPart c = false) (rest : Text) : Ends (c :: rest) := by
  intro d hd
  rw [← Option.some_inj.mp hd]
  exact hc

/-- The empty text `Lexes` to no tokens. -/
theorem lexes_nil : Lexes [] [] := by
  intro rest _
  simp

/-- Two pieces that each `Lexes` says how to cut are cut one after the other, if the second one does
not go on with a word. -/
theorem Lexes.append {s t : Text} {ts us : List Token} (hs : Lexes s ts) (ht : Lexes t us)
    (hends : ∀ rest, Ends (t ++ rest)) : Lexes (s ++ t) (ts ++ us) := by
  intro rest hrest
  rw [List.append_assoc, hs _ (hends rest), ht rest hrest]
  cases tokens? 0 rest <;> simp

/-- A bracket or a comma in front of a text is a token in front of those that the text `Lexes` to.
-/
theorem Lexes.cons_mark {c : Char} {mark : Token} (hc : mark? c = some mark) {s : Text}
    {ts : List Token} (hs : Lexes s ts) : Lexes (c :: s) (mark :: ts) := by
  intro rest hrest
  have htoken : token? c (s ++ rest) = some ([mark], 0) := by
    rw [token?, hc]
  rw [List.cons_append, tokens?, htoken]
  show ([mark] ++ ·) <$> tokens? 0 (s ++ rest) = _
  rw [hs rest hrest]
  cases tokens? 0 rest <;> simp

/-- A piece of a string that can stand in front of anything without a change to where `body?` ends
it. -/
def Within (quote : Char) (s : Text) : Prop :=
  ∀ rest, body? quote (s ++ rest) = (s ++ ·) <$> body? quote rest

/-- The empty piece is `Within` a string: it changes nothing about where this ends. -/
theorem within_nil {quote : Char} : Within quote [] := by
  intro rest
  simp

/-- Two pieces `Within` a string are one. -/
theorem Within.append {quote : Char} {s t : Text} (hs : Within quote s) (ht : Within quote t) :
    Within quote (s ++ t) := by
  intro rest
  rw [List.append_assoc, hs, ht]
  cases body? quote rest <;> simp

/-- A code point without a meaning of its own is a piece `Within` a string. -/
theorem within_singleton {quote c : Char} (hback : c ≠ '\\') (hquote : c ≠ quote)
    (hstands : standsInString c = true) : Within quote [c] := by
  intro rest
  show body? quote (c :: rest) = _
  rw [body?, if_neg hquote, if_pos hstands]
  intro d t heq
  exact absurd heq hback

/-- A backslash with what it covers is a piece `Within` a string. -/
theorem within_pair {quote c : Char} (hstands : standsInString c = true) :
    Within quote ['\\', c] := by
  intro rest
  show body? quote ('\\' :: c :: rest) = _
  rw [body?, if_pos hstands]

/-- The letters behind a backslash, and what they stand for, in `literalEscape?`. -/
def letters : List (Char × Char) :=
  [('\\', '\\'), ('\'', '\''), ('"', '"'), ('n', '\n'), ('r', '\r'), ('t', '\t')]

/-- The letters that digits follow, and how many digits follow them besides the first, in
`literalEscape?`. -/
def numbers : List (Char × Nat) := [('x', 1), ('u', 3), ('U', 7)]

/-- How a string shows one of its code points: as itself, by one of the `letters` or by its number.
-/
inductive Form (quote c : Char) : Text → Prop where
  | bare (hback : c ≠ '\\') (hquote : c ≠ quote) (hshown : isPrintable c = true) :
    Form quote c [c]
  | letter {d : Char} (h : (d, c) ∈ letters) : Form quote c ['\\', d]
  | number {d : Char} {w : Nat} (h : (d, w) ∈ numbers) (hwidth : c.toNat < 16 ^ (w + 1)) :
    Form quote c ('\\' :: d :: padded 16 (w + 1) c.toNat)

section
variable {quote c : Char} {s : Text}

/-- A text of any `Form` ends no string. -/
theorem Form.within (h : Form quote c s) (hquote : quote = '\'' ∨ quote = '"') :
    Within quote s := by
  cases h with
  | bare hback hne hshown =>
    refine within_singleton hback hne ?_
    rw [standsInString, mayStand]
    -- The three that may not stand in a string are not printable.
    simp only [Bool.and_eq_true, bne_iff_ne]
    refine ⟨⟨?_, ?_⟩, ?_⟩ <;> rintro rfl <;> exact absurd hshown (by decide)
  | @letter d hd =>
    have hstands : ∀ entry ∈ letters, standsInString entry.1 = true := by decide
    exact within_pair (hstands _ hd)
  | @number d width hd hwidth =>
    have hstands : ∀ entry ∈ numbers, standsInString entry.1 = true := by decide
    have hdigits : Within quote (padded 16 (width + 1) c.toNat) := by
      have hsingle : ∀ e ∈ padded 16 (width + 1) c.toNat, Within quote [e] := by
        intro e he
        have hdigit : isDigitOf 16 e = true :=
          isDigitOf_of_mem_padded (by decide) (by decide) _ _ e he
        obtain ⟨-, hback, hstand⟩ := inert_padded _ _ e he
        refine within_singleton hback ?_ ?_
        · rintro rfl
          rcases hquote with rfl | rfl <;> exact absurd hdigit (by decide)
        · rw [standsInString, hstand, Bool.true_and, bne_iff_ne]
          rintro rfl
          exact absurd hdigit (by decide)
      simpa using holds_flatMap (f := fun e => [e]) within_nil Within.append hsingle
    exact (within_pair (hstands _ hd)).append hdigits

end

end TypedOps.Literal
