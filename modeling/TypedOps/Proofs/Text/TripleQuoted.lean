import TypedOps.Proofs.Text.Digits
import TypedOps.Proofs.Text.Spells
import TypedOps.Proofs.Text.Plain

/-!
# `TypedOps.Proofs.Text.TripleQuoted`: reading a literal between triple quotes

A literal opens with three quotes and ends at the first three that no backslash covers,
where a backslash covers the one code point behind it. What stands between is read for
escapes. `TripleQuoted.read?` does both, and answers with the value and with the text
behind the literal. It is not part of what the library runs: it is the reader that
written docstrings are held against, so it refuses whatever a writer should not leave
bare. A carriage return would reach the reader as a line feed, a null not at all, and
characters are never written by name.

* `Closed` and `Closed.append`: a piece that neither ends the literal nor lets its last
  code point reach into what stands behind it.
* `cut?_fill_append`: one or two quotes are such a piece unless another quote follows.
-/

set_option autoImplicit false

namespace TypedOps.Text.TripleQuoted

/-- Whether a code point may stand in a literal that `read?` reads, as it is. -/
def mayStand (c : Char) : Bool := c != '\r' && c != '\x00'

/-- The text `s` in front of the first part. -/
def prepend (s : Text) (parts : Text × Text) : Text × Text := (s ++ parts.1, parts.2)

/-- What stands in front of the first triple quote that no backslash covers, which holds only what
`mayStand`, and what stands behind it. -/
def cut? : Text → Option (Text × Text)
  | [] => none
  | '"' :: '"' :: '"' :: rest => some ([], rest)
  | '\\' :: c :: rest => if mayStand c then (cut? rest).map (prepend ['\\', c]) else none
  | c :: rest => if mayStand c then (cut? rest).map (prepend [c]) else none

/-- The code point that `width` hexadecimal digits name, and the number of code points that they and
the letter in front of them take. -/
def numbered? (width : Nat) (t : Text) : Option (Text × Nat) :=
  if (t.take width).length = width then
    (namedChar? (t.take width)).map fun c => ([c], width + 1)
  else none

/-- What an escape becomes, and how many code points it takes behind its backslash, `numbered?` ones
by their width. An escaped line feed is dropped, and an unknown escape stays as it is. -/
def literalEscape? : Text → Option (Text × Nat)
  | [] => none
  | c :: rest =>
    if c = '\n' then some ([], 1)
    else if c = 'x' then numbered? 2 rest
    else if c = 'u' then numbered? 4 rest
    else if c = 'U' then numbered? 8 rest
    else if c = 'N' then none
    else if isDigitOf 8 c then
      let digits := c :: (rest.take 2).takeWhile (isDigitOf 8)
      some ([Char.ofNat (digitsValue 8 digits)], digits.length)
    else
      match letterEscape? c with
      | some b => some ([Char.ofNat b.toNat], 1)
      | none => some (['\\', c], 1)

/-- The value of the literal that a text begins with, and the text behind it. The end is found by
`cut?`, and what stands in front is read for escapes. -/
def read? (t : Text) : Option (Text × Text) := do
  let inner ← afterStart? (fill 3 '"') t
  let (body, rest) ← cut? inner
  let value ← readEscapes literalEscape? (fun c => [c]) 0 body
  return (value, rest)

/-! ### Where a literal ends -/

/-- A piece that can stand in front of anything without a change to where `cut?` ends it. -/
def Closed (s : Text) : Prop := ∀ rest, cut? (s ++ rest) = (cut? rest).map (prepend s)

/-- To `prepend` pieces one after the other is to prepend one piece. -/
theorem map_prepend_prepend (s t : Text) (parts : Option (Text × Text)) :
    (parts.map (prepend t)).map (prepend s) = parts.map (prepend (s ++ t)) := by
  cases parts <;> simp [prepend]

/-- The empty piece is `Closed`, as it ends nothing. -/
theorem closed_nil : Closed [] := by
  intro rest
  cases h : cut? rest <;> simp [prepend, h]

/-- Two `Closed` pieces are one in a row. -/
theorem Closed.append {s t : Text} (hs : Closed s) (ht : Closed t) : Closed (s ++ t) := by
  intro rest
  rw [List.append_assoc, hs, ht, map_prepend_prepend]

/-- A code point with no meaning of its own is `Closed`: it is no quote, no backslash and may stand
as it is. -/
theorem closed_singleton {c : Char} (hquote : c ≠ '"') (hback : c ≠ '\\')
    (hstand : mayStand c = true) : Closed [c] := by
  intro rest
  simp [cut?, hquote, hback, hstand]

/-- A backslash with what it covers is `Closed`, whatever that is. -/
theorem closed_pair {c : Char} (hstand : mayStand c = true) : Closed ['\\', c] := by
  intro rest
  simp [cut?, hstand]

/-- Pieces that are `Closed`, one after the other, are closed. -/
theorem closed_flatMap {β : Type} {f : β → Text} {xs : List β} (h : ∀ x ∈ xs, Closed (f x)) :
    Closed (xs.flatMap f) :=
  holds_flatMap closed_nil Closed.append h

/-- A text in which no code point has a meaning of its own for `cut?`. -/
def Inert (s : Text) : Prop := ∀ c ∈ s, c ≠ '"' ∧ c ≠ '\\' ∧ mayStand c = true

-- Decided along the text: deciding it for all code points would not end.
instance (s : Text) : Decidable (Inert s) :=
  List.decidableBAll (fun c : Char => c ≠ '"' ∧ c ≠ '\\' ∧ mayStand c = true) s

/-- Two texts are `Inert` exactly when both together are. -/
theorem inert_append {s t : Text} : Inert (s ++ t) ↔ Inert s ∧ Inert t :=
  List.forall_mem_append

/-- An `Inert` text is closed, each of its code points being so. -/
theorem Inert.closed {s : Text} (h : Inert s) : Closed s := by
  have hsingle : ∀ c ∈ s, Closed [c] := fun c hc =>
    closed_singleton (h c hc).1 (h c hc).2.1 (h c hc).2.2
  simpa using closed_flatMap hsingle

/-- An inert text holds no backslash, so it covers nothing and `spells_self` applies to it. -/
theorem Inert.not_mem {s : Text} (h : Inert s) : '\\' ∉ s := fun hmem => (h _ hmem).2.1 rfl

/-- What is `padded` in base sixteen is inert. -/
theorem inert_padded (width n : Nat) : Inert (padded 16 width n) := by
  intro d hd
  have hdigit := isDigitOf_of_mem_padded (by decide) (by decide) width n d hd
  rw [mayStand, Bool.and_eq_true, bne_iff_ne, bne_iff_ne]
  -- None of what means something in a literal is a digit.
  refine ⟨?_, ?_, ?_, ?_⟩ <;> rintro rfl <;> exact absurd hdigit (by decide)

/-- Padded digits name for `numbered?` the code point that has the number, if they are enough for
it. -/
theorem numbered?_padded {width : Nat} {c : Char} (hc : c.toNat < 16 ^ (width + 1))
    (rest : Text) :
    numbered? (width + 1) (padded 16 (width + 1) c.toNat ++ rest) = some ([c], width + 2) := by
  have hlength := length_padded (by decide) width hc
  have hdigits : ∀ d ∈ padded 16 (width + 1) c.toNat, isDigitOf 16 d = true :=
    isDigitOf_of_mem_padded (by decide) (by decide) (width + 1) c.toNat
  have hnamed : namedChar? (padded 16 (width + 1) c.toNat) = some c := by
    have hvalid : c.toNat.isValidChar := c.valid
    rw [namedChar?, if_pos (List.all_eq_true.mpr hdigits),
      digitsValue_padded (by decide) (by decide), if_pos hvalid, Char.ofNat_toNat]
  rw [numbered?, List.take_left' hlength, if_pos hlength, hnamed, Option.map_some]

/-- One or two quotes end nothing for `cut?` unless another one follows. -/
theorem cut?_fill_append {n : Nat} (hn : n < 3) {rest : Text} (h : rest.head? ≠ some '"') :
    cut? (fill n '"' ++ rest) = (cut? rest).map (prepend (fill n '"')) := by
  have hstand : mayStand '"' = true := by decide
  -- There are at most two quotes, and what follows them is no quote.
  match n with
  | 0 => exact closed_nil rest
  | 1 =>
    cases rest with
    | nil => rfl
    | cons d rest =>
      have hd : d ≠ '"' := fun hd => h (by rw [hd]; rfl)
      simp [fill, List.replicate, cut?, hd, hstand]
  | 2 =>
    cases rest with
    | nil => rfl
    | cons d rest =>
      have hd : d ≠ '"' := fun hd => h (by rw [hd]; rfl)
      have hone : cut? ('"' :: d :: rest) = (cut? (d :: rest)).map (prepend ['"']) := by
        simp [cut?, hd, hstand]
      show cut? ('"' :: '"' :: d :: rest) = _
      rw [show fill 2 '"' = ['"'] ++ ['"'] from rfl, ← map_prepend_prepend, ← hone]
      simp [cut?, hd, hstand]

/-- A closed body between triple quotes is read by `read?` up to the closing ones, whatever stands
behind them. -/
theorem read?_eq_some {body value : Text} (hclosed : Closed body)
    (hspells : Spells literalEscape? (fun c => [c]) body value) (rest : Text) :
    read? (fill 3 '"' ++ body ++ fill 3 '"' ++ rest) = some (value, rest) := by
  have hopen : afterStart? (fill 3 '"') (fill 3 '"' ++ (body ++ (fill 3 '"' ++ rest))) =
      some (body ++ (fill 3 '"' ++ rest)) := rfl
  have hend : cut? (fill 3 '"' ++ rest) = some ([], rest) := rfl
  rw [List.append_assoc, List.append_assoc, read?, hopen, Option.bind_eq_bind, Option.bind_some,
    hclosed, hend]
  simp [prepend, hspells.readEscapes_eq]

end TypedOps.Text.TripleQuoted
