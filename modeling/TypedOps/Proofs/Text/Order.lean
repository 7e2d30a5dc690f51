import Mathlib.Data.Char
import TypedOps.Text.Basic

/-!
# `TypedOps.Proofs.Text.Order`: the code-point order is a linear order

`Text.le` compares texts code point by code point. It is total (`le_total`),
transitive (`le_trans`) and antisymmetric (`le_antisymm`), so a sorted list of
texts is determined by its members. Every sorted output of the library rests on
these three facts.
-/

set_option autoImplicit false

namespace TypedOps.Text

/-- One step of the order `le`: the first code points decide unless they are equal. -/
theorem le_cons_cons (c d : Char) (s t : Text) :
    le (c :: s) (d :: t) = true ↔ c < d ∨ (c = d ∧ le s t = true) := by
  simp [le]

/-- Of two texts one is at most the other under `le`. -/
theorem le_total (s t : Text) : (le s t || le t s) = true := by
  induction s generalizing t with
  | nil => simp [le]
  | cons c s ih =>
    cases t with
    | nil => simp [le]
    | cons d t =>
      rw [Bool.or_eq_true, le_cons_cons, le_cons_cons]
      have hrest : le s t = true ∨ le t s = true := by simpa using ih t
      -- The first code points decide, and where they are the same the rest does.
      rcases lt_trichotomy c d with hlt | heq | hgt
      · exact Or.inl (Or.inl hlt)
      · subst heq
        rcases hrest with h | h
        · exact Or.inl (Or.inr ⟨rfl, h⟩)
        · exact Or.inr (Or.inr ⟨rfl, h⟩)
      · exact Or.inr (Or.inl hgt)

/-- A text is at most itself under `le`. -/
theorem le_refl (s : Text) : le s s = true := by
  simpa using le_total s s

/-- A text that is not at most another one is at least it under `le`. -/
theorem le_of_not_le {s t : Text} (h : le s t = false) : le t s = true := by
  simpa [h] using le_total s t

/-- The order `le` is transitive, by induction over the first text and cases on the other two. -/
theorem le_trans {s t u : Text} (hst : le s t = true) (htu : le t u = true) :
    le s u = true := by
  induction s generalizing t u with
  | nil => simp [le]
  | cons c s ih =>
    cases t with
    | nil => simp [le] at hst
    | cons d t =>
      cases u with
      | nil => simp [le] at htu
      | cons e u =>
        rw [le_cons_cons] at hst htu ⊢
        -- If either pair differs at the front, so do the outer two, in the same direction.
        rcases hst with hcd | ⟨rfl, hst⟩
        · rcases htu with hde | ⟨rfl, -⟩
          · exact Or.inl (Char.lt_trans hcd hde)
          · exact Or.inl hcd
        · rcases htu with hde | ⟨rfl, htu⟩
          · exact Or.inl hde
          · exact Or.inr ⟨rfl, ih hst htu⟩

/-- Two texts that are each at most the other under `le` are equal. -/
theorem le_antisymm {s t : Text} (hst : le s t = true) (hts : le t s = true) : s = t := by
  induction s generalizing t with
  | nil =>
    cases t with
    | nil => rfl
    | cons d t => simp [le] at hts
  | cons c s ih =>
    cases t with
    | nil => simp [le] at hst
    | cons d t =>
      rw [le_cons_cons] at hst hts
      -- A difference at the front would have to be one in both directions.
      rcases hst with hcd | ⟨rfl, hst⟩
      · rcases hts with hdc | ⟨rfl, -⟩
        · exact absurd hdc (Char.lt_asymm hcd)
        · exact absurd hcd (Char.lt_irrefl _)
      · rcases hts with hdc | ⟨-, hts⟩
        · exact absurd hdc (Char.lt_irrefl _)
        · rw [ih hst hts]

end TypedOps.Text
