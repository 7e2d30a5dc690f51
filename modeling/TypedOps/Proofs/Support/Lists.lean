import Mathlib.Data.List.Nodup

/-!
# `TypedOps.Proofs.Support.Lists`: lists put together, and lists with keys

What passes from two pieces to both in a row passes from any number of pieces to all of
them in a row (`relates_flatMap`, `holds_flatMap`). All items have a result just when each of
them has one (`mapM_eq_some_iff`).

Keys in a list may repeat. What is left without repetitions has none (`nodup_eraseDups`),
and where none repeats each key has one item (`filter_key_eq_singleton`). A walk that
replaces the first item of a key, or adds one behind all others, changes what is found under
that key only (`lookup_walk`), and so does taking away all items of a key (`lookup_filter`).
-/

set_option autoImplicit false

namespace TypedOps

section
variable {α β γ : Type}

/-- A relation that passes to two pieces in a row passes to any number of them, put together by
`flatMap`. -/
theorem relates_flatMap {R : List β → List γ → Prop} (hnil : R [] [])
    (happend : ∀ {s t : List β} {v w : List γ}, R s v → R t w → R (s ++ t) (v ++ w))
    {f : α → List β} {g : α → List γ} {xs : List α} (h : ∀ x ∈ xs, R (f x) (g x)) :
    R (xs.flatMap f) (xs.flatMap g) := by
  induction xs with
  | nil => exact hnil
  | cons x xs ih =>
    rw [List.flatMap_cons, List.flatMap_cons]
    exact happend (h x List.mem_cons_self) (ih fun y hy => h y (List.mem_cons_of_mem x hy))

/-- A property that passes to two pieces in a row passes to any number of them, put together by
`flatMap`. -/
theorem holds_flatMap {P : List β → Prop} (hnil : P [])
    (happend : ∀ {s t : List β}, P s → P t → P (s ++ t)) {f : α → List β} {xs : List α}
    (h : ∀ x ∈ xs, P (f x)) : P (xs.flatMap f) := by
  induction xs with
  | nil => exact hnil
  | cons x xs ih =>
    rw [List.flatMap_cons]
    exact happend (h x List.mem_cons_self) (ih fun y hy => h y (List.mem_cons_of_mem x hy))

/-- All items have a result by `mapM` exactly when each has the one in its place. -/
theorem mapM_eq_some_iff {f : α → Option β} {xs : List α} {ys : List β} :
    xs.mapM f = some ys ↔ xs.map f = ys.map some := by
  induction xs generalizing ys with
  | nil => cases ys <;> simp
  | cons x xs ih =>
    cases ys with
    | nil => simp [Option.bind_eq_some_iff]
    | cons y ys => simp [Option.bind_eq_some_iff, ih]

/-- A piece is no longer than all pieces in a row, put together by `flatMap`. -/
theorem length_le_length_flatMap (f : α → List β) {x : α} {xs : List α} (hx : x ∈ xs) :
    (f x).length ≤ (xs.flatMap f).length := by
  rw [List.flatMap_def]
  exact (List.sublist_flatten_of_mem (List.mem_map_of_mem hx)).length_le

end

section
variable {κ : Type} [BEq κ] [LawfulBEq κ]

/-- What `eraseDups` leaves has no repetitions. -/
theorem nodup_eraseDups (keys : List κ) : keys.eraseDups.Nodup := by
  match keys with
  | [] => exact List.nodup_nil
  | k :: keys =>
    rw [List.eraseDups_cons, List.nodup_cons]
    refine ⟨fun hmem => ?_, nodup_eraseDups _⟩
    have hother := (List.mem_filter.mp (List.mem_eraseDups.mp hmem)).2
    simp at hother
termination_by keys.length
decreasing_by exact Nat.lt_succ_of_le (List.length_filter_le _ _)

/-- Distinct keys are left by `eraseDups` as they are. -/
theorem eraseDups_of_nodup {keys : List κ} (h : keys.Nodup) : keys.eraseDups = keys := by
  induction keys with
  | nil => rfl
  | cons k keys ih =>
    rw [List.nodup_cons] at h
    have hothers : (keys.filter fun l => !l == k) = keys := by
      refine List.filter_eq_self.mpr fun l hl => ?_
      have hne : l ≠ k := by
        rintro rfl
        exact h.1 hl
      simpa using hne
    rw [List.eraseDups_cons, hothers, ih h.2]

/-- Where no item has a key, `filter` leaves none under it. -/
theorem filter_key_eq_nil {α : Type} {key : α → κ} {xs : List α} {k : κ}
    (h : k ∉ xs.map key) : (xs.filter fun y => key y == k) = [] :=
  List.filter_eq_nil_iff.mpr fun _ hy hkey => h (eq_of_beq hkey ▸ List.mem_map_of_mem hy)

/-- Where keys are distinct, the `filter` by the key of an item leaves that item alone. -/
theorem filter_key_eq_singleton {α : Type} {key : α → κ} {xs : List α}
    (h : (xs.map key).Nodup) {x : α} (hx : x ∈ xs) :
    (xs.filter fun y => key y == key x) = [x] := by
  induction xs with
  | nil => cases hx
  | cons y xs ih =>
    rw [List.map_cons, List.nodup_cons] at h
    rcases List.mem_cons.mp hx with rfl | hx
    · rw [List.filter_cons_of_pos (by simp), filter_key_eq_nil h.1]
    · have hne : key y ≠ key x := fun hkey => h.1 (hkey ▸ List.mem_map_of_mem hx)
      rw [List.filter_cons_of_neg (by simpa using hne), ih h.2 hx]

/-- Where keys are distinct, an item is what `find?` finds under its key. -/
theorem find?_key_eq_some {α : Type} {key : α → κ} {xs : List α} (h : (xs.map key).Nodup) {x : α}
    (hx : x ∈ xs) : (xs.find? fun y => key y == key x) = some x := by
  rw [← List.head?_filter, filter_key_eq_singleton h hx, List.head?_cons]

/-- A walk that puts `v` in the place of the first item of the key `k`, or behind all others if
there is none: `v` is found under `k`, and every other key is found where it was. -/
theorem lookup_walk {ν : Type} {k : κ} {v : ν} (walk : List (κ × ν) → List (κ × ν))
    (hnil : walk [] = [(k, v)])
    (hcons : ∀ l n rest, walk ((l, n) :: rest) =
      if l == k then (k, v) :: rest else (l, n) :: walk rest)
    (wanted : κ) (items : List (κ × ν)) [Decidable (wanted = k)] :
    (walk items).lookup wanted = if wanted = k then some v else items.lookup wanted := by
  induction items with
  | nil =>
    by_cases h : wanted = k
    · simp [hnil, h]
    · rw [hnil, List.lookup_cons, beq_false_of_ne h, if_neg h]
  | cons first rest ih =>
    obtain ⟨l, n⟩ := first
    rw [hcons]
    -- The first item is the one to be replaced, or the walk goes on behind it.
    by_cases hl : l = k
    · subst hl
      rw [beq_self_eq_true, if_pos rfl, List.lookup_cons, List.lookup_cons]
      by_cases h : wanted = l
      · simp [h]
      · rw [beq_false_of_ne h, if_neg h]
    · rw [beq_false_of_ne hl, if_neg Bool.false_ne_true, List.lookup_cons, List.lookup_cons, ih]
      by_cases h : wanted = l
      · subst h
        rw [beq_self_eq_true]
        exact (if_neg hl).symm
      · rw [beq_false_of_ne h]

/-- Without the items of the key `k`, nothing is found under it, and every other key is found where
it was. -/
theorem lookup_filter {ν : Type} (k wanted : κ) (items : List (κ × ν)) [Decidable (wanted = k)] :
    (items.filter fun (l, _) => l != k).lookup wanted =
      if wanted = k then none else items.lookup wanted := by
  induction items with
  | nil => simp
  | cons first rest ih =>
    obtain ⟨l, n⟩ := first
    -- The first item is dropped under the key, and kept under any other.
    by_cases hl : l = k
    · subst hl
      rw [List.filter_cons_of_neg (by simp), ih, List.lookup_cons]
      by_cases h : wanted = l
      · rw [if_pos h, if_pos h]
      · rw [beq_false_of_ne h]
    · rw [List.filter_cons_of_pos (by simpa using hl), List.lookup_cons, List.lookup_cons, ih]
      by_cases h : wanted = l
      · subst h
        rw [beq_self_eq_true]
        exact (if_neg hl).symm
      · rw [beq_false_of_ne h]

end

end TypedOps
