import Mathlib.Data.List.Nodup
import Mathlib.Data.List.Pairwise
import TypedOps.Emit.Module
import TypedOps.Proofs.Text.Order

/-!
# `TypedOps.Proofs.Emit.Order`: the order in which operations are taken

Operations are sorted by name, and those of one name keep the order they are given in.
This determines the order: `sortedByName_eq` says that a list which is ascending by
name and agrees with the given one on every name is the sorted one.

* `sortedByName_eq_of_perm`: when names are distinct, the given order does not matter.
* `exists_sortedByName_eq`: the operations of one name stand together.
* `sortedByName_insert`: another operation is put in one place of the order and moves
  none of the others.
-/

set_option autoImplicit false

namespace TypedOps

/-- The comparison of names that `sortedByName` uses is total. -/
theorem name_le_total (x y : Operation) :
    (Text.le x.name y.name || Text.le y.name x.name) = true := Text.le_total x.name y.name

/-- The comparison of names that `sortedByName` uses is transitive. -/
theorem name_le_trans (x y z : Operation) (hxy : Text.le x.name y.name = true)
    (hyz : Text.le y.name z.name = true) : Text.le x.name z.name = true :=
  Text.le_trans hxy hyz

/-- To take operations by `sortedByName` loses none of them and repeats none. -/
theorem sortedByName_perm (ops : List Operation) : (sortedByName ops).Perm ops :=
  List.mergeSort_perm ops _

/-- Operations are put by `sortedByName` in ascending order of their names. -/
theorem sortedByName_pairwise (ops : List Operation) :
    (sortedByName ops).Pairwise fun x y => Text.le x.name y.name = true :=
  List.pairwise_mergeSort name_le_trans name_le_total ops

/-- Operations of one name are ascending by `le` in whatever order they are given, because equal
names are in order. -/
theorem filter_name_pairwise (ops : List Operation) (name : Text) :
    (ops.filter (·.name == name)).Pairwise fun x y => Text.le x.name y.name = true := by
  refine List.pairwise_of_forall_mem_list fun x hx y hy => ?_
  have hx : x.name = name := by simpa using (List.mem_filter.mp hx).2
  have hy : y.name = name := by simpa using (List.mem_filter.mp hy).2
  rw [hx, hy]
  exact Text.le_refl name

/-- Operations of one name keep their order in `sortedByName`. They are a list that is sorted
already, so they stay a sublist, and there are no others of that name. -/
theorem filter_name_sortedByName (ops : List Operation) (name : Text) :
    (sortedByName ops).filter (·.name == name) = ops.filter (·.name == name) := by
  have hsub : (ops.filter (·.name == name)).Sublist (sortedByName ops) :=
    List.sublist_mergeSort name_le_trans name_le_total (filter_name_pairwise ops name)
      List.filter_sublist
  have hsub := hsub.filter (·.name == name)
  rw [List.filter_filter] at hsub
  simp only [Bool.and_self] at hsub
  exact (hsub.eq_of_length ((sortedByName_perm ops).filter _).length_eq.symm).symm

/-- Operations with distinct names are put by `sortedByName` into one order, whatever order they are
given in. -/
theorem sortedByName_eq_of_perm {ops ops' : List Operation}
    (distinct : (ops.map (·.name)).Nodup) (perm : ops.Perm ops') :
    sortedByName ops = sortedByName ops' := by
  have hsorted : (sortedByName ops).Perm (sortedByName ops') :=
    ((sortedByName_perm ops).trans perm).trans (sortedByName_perm ops').symm
  refine hsorted.eq_of_pairwise ?_ (sortedByName_pairwise ops) (sortedByName_pairwise ops')
  intro x y hx hy hxy hyx
  have hx : x ∈ ops := (sortedByName_perm ops).mem_iff.mp hx
  have hy : y ∈ ops := perm.mem_iff.mpr ((sortedByName_perm ops').mem_iff.mp hy)
  -- Equal names belong to one operation, so there is no tie to break.
  exact List.inj_on_of_nodup_map distinct hx hy (Text.le_antisymm hxy hyx)

/-- Lists that agree on the operations of every name, as `filter` finds them, have the same members.
-/
theorem mem_iff_of_filter_name_eq {xs ys : List Operation}
    (h : ∀ name, xs.filter (·.name == name) = ys.filter (·.name == name)) (x : Operation) :
    x ∈ xs ↔ x ∈ ys := by
  have hx : ∀ l : List Operation, x ∈ l ↔ x ∈ l.filter (·.name == x.name) := by simp
  rw [hx xs, hx ys, h]

/-- The first operation of a list that is ascending by `le` has the least name. -/
theorem name_le_of_mem {x y : Operation} {xs : List Operation}
    (hsorted : (x :: xs).Pairwise fun x y => Text.le x.name y.name = true) (hy : y ∈ x :: xs) :
    Text.le x.name y.name = true := by
  rcases List.mem_cons.mp hy with rfl | hy
  · exact Text.le_refl _
  · exact List.rel_of_pairwise_cons hsorted hy

/-- Two lists that are ascending by name and agree on every name, as `filter` finds it, are equal.
Their first members have the same name, and so they are the first of that name in both. -/
theorem eq_of_filter_name_eq {xs ys : List Operation}
    (hxs : xs.Pairwise fun x y => Text.le x.name y.name = true)
    (hys : ys.Pairwise fun x y => Text.le x.name y.name = true)
    (h : ∀ name, xs.filter (·.name == name) = ys.filter (·.name == name)) : xs = ys := by
  induction xs generalizing ys with
  | nil =>
    cases ys with
    | nil => rfl
    | cons y ys =>
      exact absurd ((mem_iff_of_filter_name_eq h y).mpr List.mem_cons_self) List.not_mem_nil
  | cons x xs ih =>
    cases ys with
    | nil => exact absurd ((mem_iff_of_filter_name_eq h x).mp List.mem_cons_self) List.not_mem_nil
    | cons y ys =>
      -- Each list begins with a least name, and each holds the other's first member.
      have hxy : Text.le x.name y.name = true :=
        name_le_of_mem hxs ((mem_iff_of_filter_name_eq h y).mpr List.mem_cons_self)
      have hyx : Text.le y.name x.name = true :=
        name_le_of_mem hys ((mem_iff_of_filter_name_eq h x).mp List.mem_cons_self)
      have hname := Text.le_antisymm hxy hyx
      have hfirst := h x.name
      rw [List.filter_cons_of_pos (by simp), List.filter_cons_of_pos (by simp [hname])] at hfirst
      obtain ⟨rfl, -⟩ := List.cons.inj hfirst
      have hrest : ∀ name, xs.filter (·.name == name) = ys.filter (·.name == name) := by
        intro name
        have hall := h name
        rw [List.filter_cons, List.filter_cons] at hall
        split at hall
        · exact (List.cons.inj hall).2
        · exact hall
      rw [ih hxs.of_cons hys.of_cons hrest]

/-- A list that is ascending by name, and agrees with the given one on every name, is what
`sortedByName` gives. -/
theorem sortedByName_eq {ops sorted : List Operation}
    (hsorted : sorted.Pairwise fun x y => Text.le x.name y.name = true)
    (h : ∀ name, sorted.filter (·.name == name) = ops.filter (·.name == name)) :
    sortedByName ops = sorted :=
  eq_of_filter_name_eq (sortedByName_pairwise ops) hsorted fun name => by
    rw [filter_name_sortedByName, h]

/-- To `filter` by a property of names keeps all operations of a name or none of them. -/
theorem filter_name_filter (q : Operation → Bool) (name : Text) (v : Bool)
    (hq : ∀ x : Operation, x.name = name → q x = v) (ops : List Operation) :
    (ops.filter q).filter (·.name == name) = if v then ops.filter (·.name == name) else [] := by
  rw [List.filter_filter]
  cases v with
  | true =>
    refine List.filter_congr fun x _ => ?_
    by_cases hx : x.name = name
    · rw [hq x hx, Bool.and_true]
    · simp [hx]
  | false =>
    refine List.filter_eq_nil_iff.mpr fun x _ => ?_
    by_cases hx : x.name = name
    · simp [hq x hx]
    · simp [hx]

/-- Operations of smaller names come first in `sortedByName`, then those of the given name in the
order they are given in, then those of larger names. The others may be taken from any list that
agrees on the other names. -/
theorem sortedByName_around (ops others : List Operation) (name : Text)
    (hothers : ∀ n, n ≠ name → others.filter (·.name == n) = ops.filter (·.name == n)) :
    sortedByName ops =
      (sortedByName others).filter (fun x => Text.le x.name name && x.name != name) ++
        (ops.filter (·.name == name) ++
          (sortedByName others).filter fun x => !Text.le x.name name) := by
  have hsorted := sortedByName_pairwise others
  -- A sorted list is fixed by its order and by the operations of each name, so these two are all
  -- there is to show.
  refine sortedByName_eq ?_ fun n => ?_
  · refine List.pairwise_append.mpr ⟨hsorted.filter _, List.pairwise_append.mpr
      ⟨filter_name_pairwise ops name, hsorted.filter _, ?_⟩, ?_⟩
    · intro x hx y hy
      have hx : x.name = name := by simpa using (List.mem_filter.mp hx).2
      have hy : Text.le y.name name = false := by simpa using (List.mem_filter.mp hy).2
      rw [hx]
      exact Text.le_of_not_le hy
    · intro x hx y hy
      have hx : Text.le x.name name = true :=
        (Bool.and_eq_true_iff.mp (List.mem_filter.mp hx).2).1
      rcases List.mem_append.mp hy with hy | hy
      · have hy : y.name = name := by simpa using (List.mem_filter.mp hy).2
        rw [hy]
        exact hx
      · have hy : Text.le y.name name = false := by simpa using (List.mem_filter.mp hy).2
        exact Text.le_trans hx (Text.le_of_not_le hy)
  -- For one name at a time, each of the three parts keeps all of its operations or none.
  · have hsmaller := filter_name_filter (fun x => Text.le x.name name && x.name != name) n
      (Text.le n name && n != name) (by rintro x rfl; rfl) (sortedByName others)
    have hmiddle := filter_name_filter (fun x => x.name == name) n (n == name)
      (by rintro x rfl; rfl) ops
    have hlarger := filter_name_filter (fun x => !Text.le x.name name) n (!Text.le n name)
      (by rintro x rfl; rfl) (sortedByName others)
    rw [List.filter_append, List.filter_append, hsmaller, hmiddle, hlarger]
    by_cases hn : n = name
    · -- Neither the smaller nor the larger names are the given one.
      subst hn
      simp [Text.le_refl]
    · -- All operations of another name stand on one of the two sides.
      rw [filter_name_sortedByName, hothers n hn]
      cases hle : Text.le n name with
      | true => simp [hn]
      | false => simp [hn]

/-- The operations of one name stand together in `sortedByName`, with all others around them. -/
theorem exists_sortedByName_eq (ops : List Operation) (name : Text) :
    ∃ before after, sortedByName ops = before ++ (ops.filter (·.name == name) ++ after) ∧
      ∀ op ∈ before ++ after, op.name ≠ name := by
  refine ⟨_, _, sortedByName_around ops ops name fun _ _ => rfl, fun op hop => ?_⟩
  rcases List.mem_append.mp hop with hsmaller | hlarger
  · simpa using (Bool.and_eq_true_iff.mp (List.mem_filter.mp hsmaller).2).2
  · rintro rfl
    have hlarger := (List.mem_filter.mp hlarger).2
    rw [Text.le_refl] at hlarger
    cases hlarger

/-- Another operation is put by `sortedByName` in one place of the order: behind the operations of a
smaller name and those of its own name that are given before it. The others keep their order. -/
theorem sortedByName_insert (left right : List Operation) (op : Operation) :
    ∃ before after, sortedByName (left ++ right) = before ++ after ∧
      sortedByName (left ++ op :: right) = before ++ op :: after := by
  have hwithout := sortedByName_around (left ++ right) (left ++ right) op.name fun _ _ => rfl
  have hwith := sortedByName_around (left ++ op :: right) (left ++ right) op.name fun n hn => by
    rw [List.filter_append, List.filter_append,
      List.filter_cons_of_neg (by simpa using Ne.symm hn)]
  rw [List.filter_append] at hwithout hwith
  rw [List.filter_cons_of_pos (by simp)] at hwith
  refine ⟨(sortedByName (left ++ right)).filter
      (fun x => Text.le x.name op.name && x.name != op.name) ++
        left.filter (·.name == op.name), right.filter (·.name == op.name) ++
      (sortedByName (left ++ right)).filter fun x => !Text.le x.name op.name, ?_, ?_⟩
  · simpa only [List.append_assoc] using hwithout
  · simpa only [List.append_assoc, List.cons_append] using hwith

end TypedOps
