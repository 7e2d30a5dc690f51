import TypedOps.Api.Store
import TypedOps.Proofs.Support.Lists

/-!
# `TypedOps.Proofs.Api.Merge`: items merged by name

`mergeNamed` puts new items into old ones. What it does to the names is clear whatever the
lists hold (`map_name_mergeNamed`): the old names stay, and the new ones that were not
there follow, each as often as it came. So names stay distinct just when none of those
came twice (`nodup_mergeNamed_iff`).

What it does to the items is clear when the old names are distinct, because then the last
item of a name is the only one (`mergeNamed_eq`). This gives the run of many merges a
closed form: `combinedBy` takes the names in the order in which they first appear and gives
each what its mentions amount to, and merging a list adds its mentions
(`Combines.mergeNamed_combinedBy`). The form lasts as long as the lists introduce each name
once (`FreshOnce`).
-/

set_option autoImplicit false

namespace TypedOps.Api

/-- Where the old value is the default, `overwrite` gives the new one, whether that is the default
or not. -/
theorem overwrite_default {α : Type} [BEq α] [LawfulBEq α] (default new : α) :
    overwrite default default new = new := by
  unfold overwrite
  split
  · next h => exact (eq_of_beq h).symm
  · rfl

section
variable {α : Type} {name : α → Text} {merge : α → α → α}

/-! ### The names -/

/-- With `modifyLast`, a change that keeps the name of an item keeps the list of all names. -/
theorem map_name_modifyLast {p : α → Bool} {f : α → α} (hf : ∀ x, name (f x) = name x)
    (xs : List α) : (modifyLast p f xs).map name = xs.map name := by
  induction xs with
  | nil => rfl
  | cons x xs ih =>
    rw [modifyLast]
    split
    · rw [List.map_cons, List.map_cons, hf]
    · rw [List.map_cons, List.map_cons, ih]

/-- Changes for many items, made one after the other by `modifyLast`, keep the list of all names. -/
theorem map_name_foldl_modifyLast (hmerge : ∀ x y, name (merge x y) = name x)
    (new old : List α) :
    (new.foldl (fun items x => modifyLast (fun y => name y == name x) (merge · x) items)
      old).map name = old.map name := by
  induction new generalizing old with
  | nil => rfl
  | cons x new ih => rw [List.foldl_cons, ih, map_name_modifyLast fun y => hmerge y x]

/-- The two parts of `mergeNamed`: items of known names are merged into the old ones, in order, and
the items of new names follow behind all old ones. -/
theorem mergeNamed_eq_append (old new : List α) :
    mergeNamed name merge old new =
      (new.filter fun x => name x ∈ old.map name).foldl
          (fun items x => modifyLast (fun y => name y == name x) (merge · x) items) old ++
        new.filter fun x => name x ∉ old.map name := by
  have hknown : ∀ x, (old.any fun y => name y == name x) = decide (name x ∈ old.map name) := by
    intro x
    rw [Bool.eq_iff_iff, List.any_eq_true, decide_eq_true_iff, List.mem_map]
    simp only [beq_iff_eq]
  simp only [mergeNamed, hknown, decide_not]

/-- The names behind `mergeNamed`: the old names stay in front, and the new ones that were not there
follow. -/
theorem map_name_mergeNamed (hmerge : ∀ x y, name (merge x y) = name x) (old new : List α) :
    (mergeNamed name merge old new).map name =
      old.map name ++ (new.map name).filter fun n => n ∉ old.map name := by
  rw [mergeNamed_eq_append, List.map_append, map_name_foldl_modifyLast hmerge, List.filter_map]
  rfl

/-- Behind `mergeNamed` the names are distinct just when the old ones were and no new name comes
twice. -/
theorem nodup_mergeNamed_iff (hmerge : ∀ x y, name (merge x y) = name x) (old new : List α) :
    ((mergeNamed name merge old new).map name).Nodup ↔
      (old.map name).Nodup ∧ ((new.map name).filter fun n => n ∉ old.map name).Nodup := by
  rw [map_name_mergeNamed hmerge, List.nodup_append']
  refine ⟨fun h => ⟨h.1, h.2.1⟩, fun h => ⟨h.1, h.2, fun n hold hnew => ?_⟩⟩
  -- What follows was not there, so the two parts have no name in common.
  have hunknown := (List.mem_filter.mp hnew).2
  exact (decide_eq_true_iff.mp hunknown) hold

/-! ### The items -/

/-- With distinct names, `modifyLast` changes the only item that has the name, so it is a `map` over
the list. -/
theorem modifyLast_eq_map {xs : List α} (h : (xs.map name).Nodup) (n : Text) (f : α → α) :
    modifyLast (fun y => name y == n) f xs = xs.map fun y => if name y = n then f y else y := by
  induction xs with
  | nil => rfl
  | cons x xs ih =>
    rw [List.map_cons, List.nodup_cons] at h
    rw [modifyLast, List.map_cons]
    by_cases hx : name x = n
    · -- No later item has the name, so nothing behind this one changes.
      have hlater : ∀ y ∈ xs, name y ≠ n := by
        rintro y hy rfl
        exact h.1 (hx ▸ List.mem_map_of_mem hy)
      have hnone : (xs.any fun y => name y == n) = false := by
        rw [List.any_eq_false]
        exact fun y hy => by simpa using hlater y hy
      have hrest : (xs.map fun y => if name y = n then f y else y) = xs := by
        rw [List.map_congr_left fun y hy => if_neg (hlater y hy), List.map_id']
      rw [hnone, if_pos (by simp [hx]), if_pos hx, hrest]
    · rw [if_neg (by simp [hx]), if_neg hx, ih h.2]

/-- With distinct names, a run of `modifyLast` is one `map`: each item takes the changes for its own
name, in their order. -/
theorem foldl_modifyLast_eq_map (hmerge : ∀ x y, name (merge x y) = name x) (new : List α)
    {old : List α} (h : (old.map name).Nodup) :
    new.foldl (fun items x => modifyLast (fun y => name y == name x) (merge · x) items) old =
      old.map fun y => (new.filter fun x => name x == name y).foldl merge y := by
  induction new generalizing old with
  | nil => exact (List.map_id' old).symm
  | cons x new ih =>
    -- One change keeps the names, so they are still distinct when the others follow.
    have hnames : ((old.map fun y => if name y = name x then merge y x else y).map name).Nodup := by
      rw [← modifyLast_eq_map h, map_name_modifyLast fun y => hmerge y x]
      exact h
    rw [List.foldl_cons, modifyLast_eq_map h, ih hnames, List.map_map]
    refine List.map_congr_left fun y _ => ?_
    rw [Function.comp_apply, List.filter_cons]
    by_cases hy : name y = name x
    · rw [if_pos hy, hmerge, if_pos (by simp [hy]), List.foldl_cons]
    · rw [if_neg hy, if_neg (by simpa using Ne.symm hy)]

/-- With distinct names, `mergeNamed` is a `map` over the old items, each of which takes the new
ones of its name in order, with the items of new names behind it. -/
theorem mergeNamed_eq (hmerge : ∀ x y, name (merge x y) = name x) {old : List α}
    (h : (old.map name).Nodup) (new : List α) :
    mergeNamed name merge old new =
      old.map (fun y => (new.filter fun x => name x == name y).foldl merge y) ++
        new.filter fun x => name x ∉ old.map name := by
  rw [mergeNamed_eq_append, foldl_modifyLast_eq_map hmerge _ h]
  congr 1
  -- What is merged into an old item is known.
  refine List.map_congr_left fun y hy => ?_
  rw [List.filter_filter]
  congr 1
  refine List.filter_congr fun x _ => ?_
  by_cases hx : name x = name y
  · have hknown : name x ∈ old.map name := hx ▸ List.mem_map_of_mem hy
    rw [decide_eq_true hknown, Bool.and_true]
  · rw [beq_false_of_ne hx, Bool.false_and]

/-- Merged into an empty list by `mergeNamed`, the items stay as they are, repeated names included.
-/
theorem mergeNamed_nil (new : List α) : mergeNamed name merge [] new = new := by
  simp [mergeNamed]

/-! ### Names in the order of their first appearance -/

/-- One item for each name, in the order in which the names first appear; `combined` makes it out of
the mentions of the name. -/
def combinedBy (name : α → Text) (combined : Text → List α → α) (mentions : List α) : List α :=
  (mentions.map name).eraseDups.map fun n => combined n (mentions.filter fun x => name x == n)

/-- What mentions of a name amount to, if each is merged into those before it. Arguments and
attributes both have such a `combined`, and all lemmas on lists of them are proved from these
fields. -/
structure Combines (name : α → Text) (merge : α → α → α) (combined : Text → List α → α) :
    Prop where
  name_merge : ∀ x y, name (merge x y) = name x
  name_combined : ∀ n mentions, name (combined n mentions) = n
  singleton : ∀ x, combined (name x) [x] = x
  concat : ∀ n mentions x, combined n (mentions ++ [x]) = merge (combined n mentions) x

variable {combined : Text → List α → α}

/-- More mentions are merged one after the other, which extends the field `concat` from one mention
to a list. -/
theorem Combines.append (h : Combines name merge combined) (n : Text) (mentions more : List α) :
    combined n (mentions ++ more) = more.foldl merge (combined n mentions) := by
  induction more generalizing mentions with
  | nil => rw [List.append_nil, List.foldl_nil]
  | cons x more ih => rw [List.append_cons, ih, h.concat, List.foldl_cons]

/-- Every name that is mentioned has one item in `combinedBy`, at the place of its first mention. -/
theorem Combines.map_name_combinedBy (h : Combines name merge combined) (mentions : List α) :
    (combinedBy name combined mentions).map name = (mentions.map name).eraseDups := by
  rw [combinedBy, List.map_map]
  refine (List.map_congr_left fun n _ => ?_).trans (List.map_id' _)
  rw [Function.comp_apply, h.name_combined]

/-- With `mergeNamed`, mentions are added to those combined so far, if no name is mentioned twice
that was not mentioned before. A name that is new twice would get two items. -/
theorem Combines.mergeNamed_combinedBy (h : Combines name merge combined) {mentions new : List α}
    (hnew : ((new.map name).filter fun n => n ∉ mentions.map name).Nodup) :
    mergeNamed name merge (combinedBy name combined mentions) new =
      combinedBy name combined (mentions ++ new) := by
  have hnames := h.map_name_combinedBy mentions
  have hold : ((combinedBy name combined mentions).map name).Nodup := by
    rw [hnames]
    exact nodup_eraseDups _
  -- The names that are new are those that `mergeNamed` appends. They stand apart from the old ones,
  -- so the two lists below are compared part by part.
  have hunknown : (new.map name).removeAll (mentions.map name) =
      (new.filter fun x => name x ∉ mentions.map name).map name := by
    rw [List.removeAll, List.filter_map]
    congr 1
    refine List.filter_congr fun x _ => ?_
    rw [Function.comp_apply, List.elem_eq_mem, decide_not]
  have hdistinct : ((new.filter fun x => name x ∉ mentions.map name).map name).Nodup := by
    rw [List.filter_map] at hnew
    exact hnew
  have hboth : combinedBy name combined (mentions ++ new) =
      (mentions.map name).eraseDups.map
          (fun n => combined n ((mentions ++ new).filter fun x => name x == n)) ++
        ((new.map name).removeAll (mentions.map name)).eraseDups.map
          fun n => combined n ((mentions ++ new).filter fun x => name x == n) := by
    rw [combinedBy, List.map_append, List.eraseDups_append, List.map_append]
  rw [mergeNamed_eq h.name_merge hold, hboth]
  congr 1
  · -- A name that was mentioned before takes its new mentions behind the old ones.
    rw [combinedBy, List.map_map]
    refine List.map_congr_left fun n _ => ?_
    rw [Function.comp_apply, h.name_combined, List.filter_append, h.append]
  · -- A name that was not has one mention.
    simp only [hnames, List.mem_eraseDups]
    rw [hunknown, eraseDups_of_nodup hdistinct, List.map_map]
    refine ((List.map_congr_left fun x hx => ?_).trans (List.map_id' _)).symm
    have hout : name x ∉ mentions.map name := of_decide_eq_true (List.mem_filter.mp hx).2
    have hone : (new.filter fun y => name y == name x) = [x] := by
      rw [← filter_key_eq_singleton hdistinct hx, List.filter_filter]
      refine List.filter_congr fun y _ => ?_
      by_cases hy : name y = name x
      · rw [hy, decide_eq_true hout, Bool.and_true]
      · rw [beq_false_of_ne hy, Bool.false_and]
    rw [Function.comp_apply, List.filter_append, filter_key_eq_nil hout, List.nil_append, hone,
      h.singleton]

/-- Items with distinct names are their own combination, by the field `singleton` for each. -/
theorem Combines.combinedBy_of_nodup (h : Combines name merge combined) {xs : List α}
    (hxs : (xs.map name).Nodup) : combinedBy name combined xs = xs := by
  have hmerge : mergeNamed name merge (combinedBy name combined []) xs =
      combinedBy name combined ([] ++ xs) := h.mergeNamed_combinedBy (by simpa using hxs)
  have hnothing : combinedBy name combined ([] : List α) = [] := rfl
  rw [hnothing, mergeNamed_nil] at hmerge
  exact hmerge.symm

/-- Looking a name up in `combinedBy` gives what the mentions of that name amount to, and nothing
for a name without mentions. -/
theorem Combines.find?_combinedBy (h : Combines name merge combined) (mentions : List α)
    (n : Text) :
    (combinedBy name combined mentions).find? (fun x => name x == n) =
      if n ∈ mentions.map name then some (combined n (mentions.filter fun x => name x == n))
      else none := by
  have hfind : ∀ names : List Text,
      (names.map fun m => combined m (mentions.filter fun x => name x == m)).find?
          (fun x => name x == n) =
        if n ∈ names then some (combined n (mentions.filter fun x => name x == n)) else none := by
    -- The names in front of the wanted one are passed over, since `combined` keeps the name that it
    -- is given.
    intro names
    induction names with
    | nil => rfl
    | cons m names ih =>
      rw [List.map_cons, List.find?_cons, h.name_combined, ih]
      by_cases hm : m = n
      · simp [hm]
      · rw [beq_false_of_ne hm]
        simp [Ne.symm hm]
  rw [combinedBy, hfind]
  simp only [List.mem_eraseDups]

end

/-! ### Lists that introduce each name once -/

/-- Lists of which none has a name twice, unless `known` or a list before it has the name. -/
def FreshOnce (known : List Text) : List (List Text) → Prop
  | [] => True
  | names :: rest =>
    (names.filter fun n => n ∉ known).Nodup ∧ FreshOnce (known ++ names) rest

instance decidableFreshOnce (known : List Text) (lists : List (List Text)) :
    Decidable (FreshOnce known lists) :=
  match lists with
  | [] => inferInstanceAs (Decidable True)
  | names :: rest =>
    have := decidableFreshOnce (known ++ names) rest
    inferInstanceAs (Decidable (_ ∧ _))

/-- The condition `FreshOnce` on one more list: it may not have a name twice that nothing before it
has. -/
theorem freshOnce_concat (known : List Text) (lists : List (List Text))
    (names : List Text) :
    FreshOnce known (lists ++ [names]) ↔
      FreshOnce known lists ∧ (names.filter fun n => n ∉ known ++ lists.flatten).Nodup := by
  induction lists generalizing known with
  | nil => simp [FreshOnce]
  | cons first lists ih =>
    rw [List.cons_append, FreshOnce, FreshOnce, ih, List.flatten_cons,
      List.append_assoc, and_assoc]

/-- Lists without repetitions are `FreshOnce` over any known names, the simple case in which the
merge lemmas apply. -/
theorem freshOnce_of_nodup {lists : List (List Text)} (h : ∀ names ∈ lists, names.Nodup)
    (known : List Text) : FreshOnce known lists := by
  induction lists generalizing known with
  | nil => trivial
  | cons first lists ih =>
    exact ⟨(h first List.mem_cons_self).filter _,
      ih (fun names hnames => h names (List.mem_cons_of_mem first hnames)) _⟩

end TypedOps.Api
