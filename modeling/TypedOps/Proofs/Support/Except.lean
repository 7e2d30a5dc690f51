/-!
# `TypedOps.Proofs.Support.Except`: computations that succeed

A computation made of several succeeds exactly when they all do. These lemmas take a
success apart into the successes of its parts, and a fault into the first part that has
it and the successes in front.
-/

set_option autoImplicit false

namespace TypedOps

/-- A computation with `map` succeeds exactly when the computation does. -/
theorem map_eq_ok_iff {ε α β : Type} (f : α → β) (x : Except ε α) (y : β) :
    x.map f = .ok y ↔ ∃ a, x = .ok a ∧ f a = y := by
  cases x <;> simp [Except.map]

/-- To name faults anew by `mapError` changes nothing about a success. -/
theorem mapError_eq_ok_iff {ε ε' α : Type} (f : ε → ε') (x : Except ε α) (y : α) :
    x.mapError f = .ok y ↔ x = .ok y := by
  cases x with
  | error e => constructor <;> intro h <;> cases h
  | ok a => constructor <;> intro h <;> cases h <;> rfl

/-- There is a result with `map` exactly when there is a result. -/
theorem exists_map_eq_ok_iff {ε α β : Type} (f : α → β) (x : Except ε α) :
    (∃ y, x.map f = .ok y) ↔ ∃ a, x = .ok a := by
  cases x <;> simp [Except.map]

/-- Faults may keep their names in `mapError`. -/
@[simp] theorem mapError_id {ε α : Type} (x : Except ε α) : x.mapError id = x := by
  cases x <;> rfl

/-- Two computations in a row, by `bind`, succeed exactly when both do. -/
theorem bind_eq_ok_iff {ε α β : Type} (x : Except ε α) (f : α → Except ε β) (y : β) :
    x >>= f = .ok y ↔ ∃ a, x = .ok a ∧ f a = .ok y := by
  cases x <;> simp [bind, Except.bind]

/-- Two computations in a row, by `bind`, end with a fault of the first, or with one of the second
behind a success of the first. -/
theorem bind_eq_error_iff {ε α β : Type} (x : Except ε α) (f : α → Except ε β) (fault : ε) :
    x >>= f = .error fault ↔ x = .error fault ∨ ∃ a, x = .ok a ∧ f a = .error fault := by
  cases x <;> simp [bind, Except.bind]

/-- A computation with `map` has the faults of the computation. -/
theorem map_eq_error_iff {ε α β : Type} (f : α → β) (x : Except ε α) (fault : ε) :
    x.map f = .error fault ↔ x = .error fault := by
  cases x <;> simp [Except.map]

/-- A result of several computations, by `mapM`, is the result of one of them. -/
theorem exists_of_mem_mapM {ε α β : Type} {f : α → Except ε β} {xs : List α} {ys : List β}
    (h : xs.mapM f = .ok ys) {y : β} (hy : y ∈ ys) : ∃ x ∈ xs, f x = .ok y := by
  -- The result is that of the first computation or of one behind it.
  induction xs generalizing ys with
  | nil =>
    rw [List.mapM_nil] at h
    cases h
    cases hy
  | cons x xs ih =>
    simp only [List.mapM_cons, bind_eq_ok_iff] at h
    obtain ⟨first, hfirst, rest, hrest, h⟩ := h
    cases h
    rcases List.mem_cons.mp hy with rfl | hy
    · exact ⟨x, List.mem_cons_self, hfirst⟩
    · obtain ⟨x', hx', hfx'⟩ := ih hrest hy
      exact ⟨x', List.mem_cons_of_mem x hx', hfx'⟩

/-- The result of one of several computations is among the results of `mapM`. -/
theorem mem_of_mapM {ε α β : Type} {f : α → Except ε β} {xs : List α} {ys : List β}
    (h : xs.mapM f = .ok ys) {x : α} (hx : x ∈ xs) {y : β} (hy : f x = .ok y) : y ∈ ys := by
  induction xs generalizing ys with
  | nil => cases hx
  | cons first xs ih =>
    simp only [List.mapM_cons, bind_eq_ok_iff] at h
    obtain ⟨z, hz, rest, hrest, h⟩ := h
    cases h
    rcases List.mem_cons.mp hx with rfl | hx
    · rw [hy] at hz
      cases hz
      exact List.mem_cons_self
    · exact List.mem_cons_of_mem z (ih hrest hx)

/-- What is said of each result by the item it is made from is said of all results of `mapM`. -/
theorem map_eq_map_of_mem_mapM {ε α β γ : Type} {f : α → Except ε β} {p : α → γ} {q : β → γ}
    {xs : List α} {ys : List β} (hpq : ∀ x ∈ xs, ∀ y, f x = .ok y → q y = p x)
    (h : xs.mapM f = .ok ys) : ys.map q = xs.map p := by
  induction xs generalizing ys with
  | nil =>
    rw [List.mapM_nil] at h
    cases h
    rfl
  | cons x xs ih =>
    simp only [List.mapM_cons, bind_eq_ok_iff] at h
    obtain ⟨first, hfirst, rest, hrest, h⟩ := h
    cases h
    rw [List.map_cons, List.map_cons, hpq x List.mem_cons_self first hfirst,
      ih (fun y hy => hpq y (List.mem_cons_of_mem x hy)) hrest]

/-- What is said of each result by its item, whichever item that is, is said of all of them. No
membership has to be carried along here, unlike in `map_eq_map_of_mem_mapM`. -/
theorem map_eq_map_of_mapM {ε α β γ : Type} {f : α → Except ε β} {p : α → γ} {q : β → γ}
    (hpq : ∀ {x y}, f x = .ok y → q y = p x) {xs : List α} {ys : List β}
    (h : xs.mapM f = .ok ys) : ys.map q = xs.map p :=
  map_eq_map_of_mem_mapM (fun _ _ _ hy => hpq hy) h

/-- Several computations that succeed give by `mapM` the results of each. -/
theorem mapM_eq_ok_of_forall {ε α β : Type} {f : α → Except ε β} {g : α → β} {xs : List α}
    (h : ∀ x ∈ xs, f x = .ok (g x)) : xs.mapM f = .ok (xs.map g) := by
  induction xs with
  | nil => rfl
  | cons x xs ih =>
    rw [List.mapM_cons, h x List.mem_cons_self,
      ih fun y hy => h y (List.mem_cons_of_mem x hy)]
    rfl

/-- To `map` each of several computations maps their results. -/
theorem mapM_map {ε α β γ : Type} (f : α → Except ε β) (g : β → γ) (xs : List α) :
    (xs.mapM fun x => (f x).map g) = (xs.mapM f).map (List.map g) := by
  induction xs with
  | nil => rfl
  | cons x xs ih =>
    rw [List.mapM_cons, List.mapM_cons, ih]
    rcases f x with fault | y
    · rfl
    · show Except.map (List.map g) (xs.mapM f) >>= _ =
        Except.map (List.map g) (xs.mapM f >>= fun ys => .ok (y :: ys))
      rcases xs.mapM f with fault | ys <;> rfl

/-- Several computations have results by `mapM` exactly when each of them has one. -/
theorem exists_mapM_eq_ok_iff {ε α β : Type} {f : α → Except ε β} {xs : List α} :
    (∃ ys, xs.mapM f = .ok ys) ↔ ∀ x ∈ xs, ∃ y, f x = .ok y := by
  induction xs with
  | nil => simp [pure, Except.pure]
  | cons x xs ih =>
    rw [List.forall_mem_cons, ← ih]
    simp only [List.mapM_cons, bind_eq_ok_iff]
    constructor
    · rintro ⟨ys, y, hy, ys', hys', -⟩
      exact ⟨⟨y, hy⟩, ys', hys'⟩
    · rintro ⟨⟨y, hy⟩, ys, hys⟩
      exact ⟨y :: ys, y, hy, ys, hys, rfl⟩

/-- There is a fault exactly when there is no result. -/
theorem exists_error_iff {ε α : Type} (x : Except ε α) :
    (∃ fault, x = .error fault) ↔ ¬∃ a, x = .ok a := by
  cases x <;> simp

/-- Several computations end in `mapM` with the fault of the first one that has none of the results.
-/
theorem mapM_eq_error_iff {ε α β : Type} (f : α → Except ε β) (xs : List α) (fault : ε) :
    xs.mapM f = .error fault ↔
      ∃ before x after, xs = before ++ x :: after ∧ (∀ y ∈ before, ∃ v, f y = .ok v) ∧
        f x = .error fault := by
  induction xs with
  | nil =>
    refine ⟨fun h => (by cases h), ?_⟩
    rintro ⟨before, x, after, h, -⟩
    cases before <;> cases h
  | cons x xs ih =>
    -- The fault is that of the first computation, or of a later one behind it.
    rw [List.mapM_cons, bind_eq_error_iff]
    constructor
    · rintro (hx | ⟨v, hv, hrest⟩)
      · exact ⟨[], x, xs, rfl, (fun y hy => by cases hy), hx⟩
      -- Putting the first result in front brings no fault of its own.
      · rcases (bind_eq_error_iff _ _ _).mp hrest with htail | ⟨vs, -, h⟩
        · obtain ⟨before, y, after, rfl, hbefore, hy⟩ := ih.mp htail
          refine ⟨x :: before, y, after, rfl, fun z hz => ?_, hy⟩
          rcases List.mem_cons.mp hz with rfl | hz
          · exact ⟨v, hv⟩
          · exact hbefore z hz
        · cases h
    · rintro ⟨before, y, after, hplace, hbefore, hy⟩
      cases before with
      | nil =>
        cases hplace
        exact .inl hy
      | cons z before =>
        cases hplace
        obtain ⟨v, hv⟩ := hbefore x List.mem_cons_self
        refine .inr ⟨v, hv, (bind_eq_error_iff _ _ _).mpr (.inl (ih.mpr ?_))⟩
        exact ⟨before, y, after, rfl, (fun z hz => hbefore z (List.mem_cons_of_mem x hz)), hy⟩

end TypedOps
