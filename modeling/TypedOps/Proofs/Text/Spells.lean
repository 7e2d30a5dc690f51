import TypedOps.Proofs.Support.Lists
import TypedOps.Text.Escape

/-!
# `TypedOps.Proofs.Text.Spells`: pieces of a text read for escapes

`readEscapes` walks a text from the left, and what it makes of a piece could depend on
what stands behind it: an escape may take more code points than the piece has. `Spells`
says that it does not. A piece that spells some items does so in front of anything, so
pieces can be read one by one and their items joined (`Spells.append`,
`spells_flatMap`).
-/

set_option autoImplicit false

namespace TypedOps.Text

section
variable {α : Type} {escape? : Text → Option (List α × Nat)} {plain : Char → List α}

/-- In front of anything, the text `s` is read as the items `v` and no more is taken. -/
def Spells (escape? : Text → Option (List α × Nat)) (plain : Char → List α) (s : Text)
    (v : List α) : Prop :=
  ∀ rest, readEscapes escape? plain 0 (s ++ rest) =
    (v ++ ·) <$> readEscapes escape? plain 0 rest

/-- The empty text `Spells` no items. -/
theorem spells_nil : Spells escape? plain [] [] := by
  intro rest
  simp

/-- Two pieces with `Spells` are read one after the other. -/
theorem Spells.append {s t : Text} {v w : List α} (hs : Spells escape? plain s v)
    (ht : Spells escape? plain t w) : Spells escape? plain (s ++ t) (v ++ w) := by
  intro rest
  rw [List.append_assoc, hs, ht]
  cases readEscapes escape? plain 0 rest <;> simp

/-- A code point other than the backslash `Spells` what it is read as for itself. -/
theorem spells_plain {c : Char} (hc : c ≠ '\\') : Spells escape? plain [c] (plain c) := by
  intro rest
  show readEscapes escape? plain 0 (c :: rest) = _
  rw [readEscapes, if_neg hc]

/-- Code points that an escape takes are passed over by `readEscapes`. -/
theorem readEscapes_skip (s rest : Text) :
    readEscapes escape? plain s.length (s ++ rest) = readEscapes escape? plain 0 rest := by
  induction s with
  | nil => rfl
  | cons c s ih =>
    show readEscapes escape? plain (s.length + 1) (c :: (s ++ rest)) = _
    rw [readEscapes, ih]

/-- An escape that takes exactly what stands behind its backslash `Spells` its items, and is a piece
of its own. -/
theorem spells_escape {s : Text} {v : List α}
    (h : ∀ rest, escape? (s ++ rest) = some (v, s.length)) :
    Spells escape? plain ('\\' :: s) v := by
  intro rest
  show readEscapes escape? plain 0 ('\\' :: (s ++ rest)) = _
  rw [readEscapes, if_pos rfl, h]
  show (v ++ ·) <$> readEscapes escape? plain s.length (s ++ rest) = _
  rw [readEscapes_skip]

/-- Items written one after the other, each with `Spells`, are read one after the other. -/
theorem spells_flatMap {β : Type} {f : β → Text} {g : β → List α} {xs : List β}
    (h : ∀ x ∈ xs, Spells escape? plain (f x) (g x)) :
    Spells escape? plain (xs.flatMap f) (xs.flatMap g) :=
  relates_flatMap spells_nil Spells.append h

/-- A text without backslashes `Spells` what its code points are read as, one by one. -/
theorem spells_of_not_mem {t : Text} (h : '\\' ∉ t) :
    Spells escape? plain t (t.flatMap plain) := by
  have hplain : ∀ c ∈ t, Spells escape? plain [c] (plain c) := by
    intro c hc
    refine spells_plain ?_
    rintro rfl
    exact h hc
  simpa using spells_flatMap hplain

/-- Where bare code points are kept, a text without backslashes `Spells` itself. -/
theorem spells_self {escape? : Text → Option (Text × Nat)} {t : Text} (h : '\\' ∉ t) :
    Spells escape? (fun c => [c]) t t := by
  have hplain : Spells escape? (fun c => [c]) t (t.flatMap fun c => [c]) := spells_of_not_mem h
  simpa using hplain

/-- A text that is one piece is read by `readEscapes` to its end. -/
theorem Spells.readEscapes_eq {s : Text} {v : List α} (h : Spells escape? plain s v) :
    readEscapes escape? plain 0 s = some v := by
  have hall := h []
  rw [List.append_nil] at hall
  rw [hall, readEscapes]
  simp

end

end TypedOps.Text
