import TypedOps.Text.Basic
import Mathlib.Data.List.Basic

/-!
# `TypedOps.Proofs.Text.Separated`: separators put into a text

`separated sep here t` is the text `t` with the separator `sep` in front of each place that `here`
names. What stands where in it is told by one count: in front of what belongs to a place stand the
code points before that place and the separators put in before it (`separatorPlace`).

* `getElem?_separated_iff`: which code point stands where.
* `without_separated`: taking away the code points at the places of the separators gives the text
  back.

A separator in front of another one, or behind one, could not be told from it. Where none is
(`Apart`), nothing else is lost either:

* `Apart.exists_double`: two separators in a row were in a row before.
* `Apart.separated_eq_iff`: the places can be read off the result.
-/

set_option autoImplicit false

namespace TypedOps.Text

/-- A text from the place `first` on, with a separator in front of each place that `here` names. -/
def separatedFrom (sep : Char) (here : Nat → Bool) : (first : Nat) → Text → Text
  | _, [] => []
  | first, c :: t =>
    (if here first then [sep] else []) ++ c :: separatedFrom sep here (first + 1) t

/-- A text with a separator in front of each place that `here` names. -/
def separated (sep : Char) (here : Nat → Bool) (t : Text) : Text := separatedFrom sep here 0 t

/-- Where a separator in front of the place `i` comes to stand: behind the code points and the
separators before it. -/
def separatorPlace (here : Nat → Bool) (i : Nat) : Nat := i + (List.range i).countP here

/-- Where the separators come to stand in a text of `n` code points. -/
def separatorPlaces (here : Nat → Bool) (n : Nat) : List Nat :=
  ((List.range n).filter here).map (separatorPlace here)

/-- A text without the code points at the given places. Applied to the places of separators, it
undoes `separated`. -/
def without (places : List Nat) (t : Text) : Text :=
  (t.zipIdx.filter fun p => !places.contains p.2).map Prod.fst

section
variable {sep : Char} {here : Nat → Bool}

/-! ### Where things come to stand -/

/-- A `separatorPlace` leaves room for a code point and the separator in front. -/
theorem separatorPlace_succ (here : Nat → Bool) (i : Nat) :
    separatorPlace here (i + 1) = separatorPlace here i + (here i).toNat + 1 := by
  have hcount : (List.range (i + 1)).countP here = (List.range i).countP here + (here i).toNat := by
    rw [List.range_succ, List.countP_append, List.countP_singleton]
    cases here i <;> rfl
  rw [separatorPlace, separatorPlace, hcount]
  omega

/-- What belongs to a later `separatorPlace` stands behind all that belongs to an earlier one. -/
theorem separatorPlace_lt (here : Nat → Bool) {i k : Nat} (h : i < k) :
    separatorPlace here i + (here i).toNat < separatorPlace here k := by
  induction k with
  | zero => omega
  | succ k ih =>
    have hnext := separatorPlace_succ here k
    rcases Nat.lt_or_eq_of_le (Nat.le_of_lt_succ h) with hlt | rfl
    · have hbefore := ih hlt
      omega
    · omega

/-- What comes to stand at one index belongs to one `separatorPlace`. -/
theorem eq_of_separatorPlace_add {i k m n : Nat} (hm : m ≤ (here i).toNat)
    (hn : n ≤ (here k).toNat) (h : separatorPlace here i + m = separatorPlace here k + n) :
    i = k := by
  rcases Nat.lt_trichotomy i k with hlt | rfl | hlt
  · have hbehind := separatorPlace_lt here hlt
    omega
  · rfl
  · have hbefore := separatorPlace_lt here hlt
    omega

/-- The separator and the code point that belong to a place, each with its `separatorPlace`, where
it comes to stand. -/
def placed (sep : Char) (here : Nat → Bool) (p : Char × Nat) : List (Char × Nat) :=
  (if here p.2 then [(sep, separatorPlace here p.2)] else []) ++
    [(p.1, separatorPlace here p.2 + (here p.2).toNat)]

/-- Place by place, what belongs to it comes to stand where `placed` says. -/
theorem zipIdx_separatedFrom (first : Nat) (t : Text) :
    (separatedFrom sep here first t).zipIdx (separatorPlace here first) =
      (t.zipIdx first).flatMap (placed sep here) := by
  -- Both sides count on from the first place, so it varies in the induction.
  induction t generalizing first with
  | nil => rfl
  | cons c t ih =>
    have hrest := ih (first + 1)
    rw [separatorPlace_succ] at hrest
    rw [separatedFrom, List.zipIdx_cons, List.flatMap_cons, ← hrest, placed]
    cases here first <;> simp

/-- In the whole text, too, what belongs to a place comes to stand where `placed` says. -/
theorem zipIdx_separated (sep : Char) (here : Nat → Bool) (t : Text) :
    (separated sep here t).zipIdx = t.zipIdx.flatMap (placed sep here) :=
  zipIdx_separatedFrom 0 t

/-- What stands where in a `separated` text: the separators at their places, and each code point at
the place of its separator or right behind it. -/
theorem getElem?_separated_iff {t : Text} {j : Nat} {c : Char} :
    (separated sep here t)[j]? = some c ↔ ∃ i < t.length,
      here i = true ∧ j = separatorPlace here i ∧ c = sep ∨
        j = separatorPlace here i + (here i).toNat ∧ t[i]? = some c := by
  -- The places are read off the text with its indices, piece by piece.
  have hmem : (separated sep here t)[j]? = some c ↔ (c, j) ∈ (separated sep here t).zipIdx :=
    (List.mem_zipIdx_iff_getElem? (x := (c, j))).symm
  rw [hmem, zipIdx_separated, List.mem_flatMap]
  constructor
  · rintro ⟨⟨d, i⟩, hd, hj⟩
    have hd : t[i]? = some d := List.mem_zipIdx_iff_getElem?.mp hd
    refine ⟨i, (List.getElem?_eq_some_iff.mp hd).1, ?_⟩
    rcases List.mem_append.mp hj with hj | hj
    · split at hj
      · next hhere =>
        rw [List.mem_singleton, Prod.mk.injEq] at hj
        exact .inl ⟨hhere, hj.2, hj.1⟩
      · cases hj
    · rw [List.mem_singleton, Prod.mk.injEq] at hj
      exact .inr ⟨hj.2, hj.1 ▸ hd⟩
  · rintro ⟨i, hi, hj⟩
    -- A code point is placed with the separator in front of it, so either stands among what is
    -- placed.
    have hd : t[i]? = some t[i] := List.getElem?_eq_getElem hi
    refine ⟨(t[i], i), List.mem_zipIdx_iff_getElem?.mpr hd, ?_⟩
    rcases hj with ⟨hhere, rfl, rfl⟩ | ⟨rfl, hc⟩
    · simp [placed, hhere]
    · rw [hd, Option.some.injEq] at hc
      simp [placed, hc]

/-! ### Taking the separators away -/

/-- At the `separatorPlaces` stand separators. -/
theorem getElem?_of_mem_separatorPlaces {t : Text} {j : Nat}
    (h : j ∈ separatorPlaces here t.length) : (separated sep here t)[j]? = some sep := by
  obtain ⟨i, hi, rfl⟩ := List.mem_map.mp h
  obtain ⟨hrange, hhere⟩ := List.mem_filter.mp hi
  exact getElem?_separated_iff.mpr ⟨i, List.mem_range.mp hrange, .inl ⟨hhere, rfl, rfl⟩⟩

/-- A code point of the text stands at none of the `separatorPlaces`. -/
theorem not_mem_separatorPlaces (here : Nat → Bool) (n i : Nat) :
    separatorPlace here i + (here i).toNat ∉ separatorPlaces here n := by
  intro hmem
  obtain ⟨k, hk, heq⟩ := List.mem_map.mp hmem
  obtain rfl : k = i := eq_of_separatorPlace_add (Nat.zero_le _) (Nat.le_refl _) heq
  rw [(List.mem_filter.mp hk).2] at heq
  exact absurd heq (Nat.ne_of_lt (Nat.lt_succ_self _))

/-- Of what is `placed` for one code point, only this is left without the separators. -/
theorem filter_placed {n : Nat} {p : Char × Nat} (h : p.2 < n) :
    (placed sep here p).filter (fun q => !(separatorPlaces here n).contains q.2) =
      [(p.1, separatorPlace here p.2 + (here p.2).toNat)] := by
  have hchar := not_mem_separatorPlaces here n p.2
  rw [placed, List.filter_append, List.filter_cons_of_pos (by simpa using hchar), List.filter_nil]
  split
  · next hhere =>
    have hsep : separatorPlace here p.2 ∈ separatorPlaces here n :=
      List.mem_map_of_mem (List.mem_filter.mpr ⟨List.mem_range.mpr h, hhere⟩)
    rw [List.filter_cons_of_neg (by simpa using hsep)]
    rfl
  · rfl

/-- Taking away what stands at the `separatorPlaces` gives the text back. -/
theorem without_separated (sep : Char) (here : Nat → Bool) (t : Text) :
    without (separatorPlaces here t.length) (separated sep here t) = t := by
  have hkept : ∀ p ∈ t.zipIdx, ((placed sep here p).filter
      fun q => !(separatorPlaces here t.length).contains q.2).map Prod.fst = [p.1] := by
    intro p hp
    rw [filter_placed (List.getElem?_eq_some_iff.mp (List.mem_zipIdx_iff_getElem?.mp hp)).1]
    rfl
  rw [without, zipIdx_separated, List.filter_flatMap, List.map_flatMap, List.flatMap_congr hkept,
    ← List.map_eq_flatMap, List.zipIdx_map_fst]

/-! ### Separators apart from one another -/

/-- In the text, no separator stands in front of one of the places or right behind it, and none of
the places is the first. The places of a `separated` text can then be read off it. -/
def Apart (sep : Char) (here : Nat → Bool) (t : Text) : Prop :=
  ∀ i, here i = true → i ≠ 0 ∧ t[i - 1]? ≠ some sep ∧ t[i]? ≠ some sep

/-- The last code point stays the last in a `separatedFrom` text, as separators are put in front
only. -/
theorem getLast?_separatedFrom (first : Nat) (t : Text) :
    (separatedFrom sep here first t).getLast? = t.getLast? := by
  induction t generalizing first with
  | nil => rfl
  | cons c t ih =>
    rw [separatedFrom, List.getLast?_append, List.getLast?_cons, List.getLast?_cons, ih]
    rfl

namespace Apart

variable {t : Text}

/-- The first code point stays the first in a `separated` text, as no separator is put in front of
it. -/
theorem head?_separated (h : Apart sep here t) : (separated sep here t).head? = t.head? := by
  have hfirst : here 0 = false := by
    cases hhere : here 0 with
    | false => rfl
    | true => exact absurd rfl (h 0 hhere).1
  cases t with
  | nil => rfl
  | cons c t => simp [separated, separatedFrom, hfirst]

/-- Where a text kept `Apart` has a separator, none is put in front. -/
theorem not_here (h : Apart sep here t) {i : Nat} (hi : t[i]? = some sep) : here i = false := by
  cases hhere : here i with
  | false => rfl
  | true => exact absurd hi (h i hhere).2.2

/-- Where a text kept `Apart` has a separator, none is put in behind it either. -/
theorem not_here_succ (h : Apart sep here t) {i : Nat} (hi : t[i]? = some sep) :
    here (i + 1) = false := by
  cases hhere : here (i + 1) with
  | false => rfl
  | true => exact absurd hi (h (i + 1) hhere).2.1

/-- Two separators in a row in a `separated` text were in a row before. -/
theorem exists_double (h : Apart sep here t) {j : Nat} (hj : (separated sep here t)[j]? = some sep)
    (hnext : (separated sep here t)[j + 1]? = some sep) :
    ∃ i, j = separatorPlace here i ∧ t[i]? = some sep ∧ t[i + 1]? = some sep := by
  obtain ⟨i, hi, ⟨hhere, rfl, -⟩ | ⟨rfl, hsep⟩⟩ := getElem?_separated_iff.mp hj
  · -- Behind a separator that was put in stands the code point that it was put in front of.
    have hchar : (separated sep here t)[separatorPlace here i + 1]? = some t[i] :=
      getElem?_separated_iff.mpr
        ⟨i, hi, .inr ⟨by rw [hhere]; rfl, List.getElem?_eq_getElem hi⟩⟩
    rw [hnext, ← List.getElem?_eq_getElem hi] at hchar
    exact absurd hchar.symm (h i hhere).2.2
  · -- Behind a separator of the text comes the next place, where none is put in.
    rw [← separatorPlace_succ] at hnext
    refine ⟨i, by rw [h.not_here hsep]; rfl, hsep, ?_⟩
    obtain ⟨k, -, ⟨hhere, heq, -⟩ | ⟨heq, hk⟩⟩ := getElem?_separated_iff.mp hnext
    · obtain rfl : i + 1 = k := eq_of_separatorPlace_add (Nat.zero_le _) (Nat.zero_le _) heq
      rw [h.not_here_succ hsep] at hhere
      cases hhere
    · obtain rfl : i + 1 = k := eq_of_separatorPlace_add (Nat.zero_le _) (Nat.le_refl _) heq
      exact hk

/-! ### Reading the places off -/

/-- Behind a separator of the text, further ones in front of what is `separatedFrom` there cannot be
made up for. -/
theorem append_separatedFrom_ne {others : Nat → Bool} {before behind : Text}
    (h : Apart sep here (before ++ sep :: behind)) (run : Text) (hne : run ≠ [])
    (hrun : ∀ c ∈ run, c = sep) :
    run ++ separatedFrom sep others (before.length + 1) behind ≠
      separatedFrom sep here (before.length + 1) behind := by
  -- What is in front goes on in the run of separators, so both vary in the induction.
  induction behind generalizing before run with
  | nil => simpa [separatedFrom] using hne
  | cons c behind ih =>
    intro heq
    have hhere : here (before.length + 1) = false := h.not_here_succ (by simp)
    obtain ⟨d, run, rfl⟩ := List.exists_cons_of_ne_nil hne
    rw [separatedFrom, separatedFrom, hhere] at heq
    obtain ⟨rfl, heq⟩ := List.cons.inj heq
    obtain rfl : d = sep := hrun d List.mem_cons_self
    have hbehind : Apart d here ((before ++ [d]) ++ d :: behind) := by simpa using h
    have hput : ∀ e ∈ (if others (before.length + 1) then [d] else []), e = d := by
      split <;> simp
    have hkept : ∀ e ∈ run, e = d := fun e he => hrun e (List.mem_cons_of_mem d he)
    have hlonger : ∀ e ∈ run ++ (if others (before.length + 1) then [d] else []) ++ [d], e = d :=
      List.forall_mem_append.mpr
        ⟨List.forall_mem_append.mpr ⟨hkept, hput⟩, fun e he => List.mem_singleton.mp he⟩
    exact ih hbehind _ (by simp) hlonger (by simpa using heq)

/-- From any place on, texts that are `separatedFrom` at other places are others. -/
theorem eq_of_separatedFrom_eq {others : Nat → Bool} (before : Text) {behind : Text}
    (h : Apart sep here (before ++ behind))
    (heq : separatedFrom sep others before.length behind =
      separatedFrom sep here before.length behind) :
    ∀ i, before.length ≤ i → i < before.length + behind.length → others i = here i := by
  induction behind generalizing before with
  | nil =>
    intro i hle hlt
    rw [List.length_nil] at hlt
    omega
  | cons c behind ih =>
    have hchar : (before ++ c :: behind)[before.length]? = some c := by simp
    have hbehind : Apart sep here ((before ++ [c]) ++ behind) := by simpa using h
    rw [separatedFrom, separatedFrom] at heq
    -- Were the two at odds here, `c` would be a separator.
    have hfirst : others before.length = here before.length := by
      cases hhere : here before.length with
      | false =>
        cases hothers : others before.length with
        | false => rfl
        | true =>
          rw [hothers, hhere] at heq
          obtain ⟨rfl, heq⟩ := List.cons.inj heq
          exact absurd heq (h.append_separatedFrom_ne [sep] (by simp) (by simp))
      | true =>
        cases hothers : others before.length with
        | false =>
          rw [hothers, hhere] at heq
          obtain ⟨rfl, -⟩ := List.cons.inj heq
          exact absurd hchar (h _ hhere).2.2
        | true => rfl
    intro i hle hlt
    rcases Nat.lt_or_eq_of_le hle with hlater | rfl
    · rw [hfirst, List.append_cancel_left_eq, List.cons.injEq] at heq
      refine ih (before ++ [c]) hbehind (by simpa using heq.2) i ?_ ?_
      · simpa using Nat.succ_le_of_lt hlater
      · simp only [List.length_append, List.length_cons, List.length_nil] at hlt ⊢
        omega
    · exact hfirst

end Apart

/-- Only the places in the text matter, so `here` may be changed outside it. -/
theorem separatedFrom_congr {others : Nat → Bool} {first : Nat} {t : Text}
    (h : ∀ i, first ≤ i → i < first + t.length → others i = here i) :
    separatedFrom sep others first t = separatedFrom sep here first t := by
  induction t generalizing first with
  | nil => rfl
  | cons c t ih =>
    have hrest : ∀ i, first + 1 ≤ i → i < first + 1 + t.length → others i = here i :=
      fun i hle hlt => h i (by omega) (by rw [List.length_cons]; omega)
    rw [separatedFrom, separatedFrom, h first (Nat.le_refl _) (by simp), ih hrest]

/-- Separators that are kept `Apart` from one another are at those places of the text and at no
others. -/
theorem Apart.separated_eq_iff {t : Text} (h : Apart sep here t) (others : Nat → Bool) :
    separated sep others t = separated sep here t ↔ ∀ i < t.length, others i = here i := by
  constructor
  · intro heq i hi
    exact Apart.eq_of_separatedFrom_eq [] h heq i (Nat.zero_le i) (by simpa using hi)
  · intro hothers
    exact separatedFrom_congr fun i _ hi => hothers i (by omega)

end

end TypedOps.Text
