import Mathlib.Data.List.Perm.Subperm
import TypedOps.Files.Tree
import TypedOps.Proofs.Support.Lists
import TypedOps.Proofs.Text.Digits

/-!
# `TypedOps.Proofs.Files.Tree`: what stands where after a change

A tree is asked what stands at a location. Putting something at a location, or taking it
away, changes the answer for that location only (`node?_set_of_ne`, `node?_remove_of_ne`).
The working directory and the roots are directories whatever a tree holds; `IsRoot` names
them.

Following a path asks only where directories are. So a path that leads somewhere leads to
the same place in a tree with more directories (`locate_mono`), and the path of a file leads
through the directory of its parent (`locate_join`).

`temporaryName` counts up to a name that is free. There are more candidates than things in a
tree, so it finds one (`node?_temporaryName`).
-/

set_option autoImplicit false

namespace TypedOps.FileTree

/-! ### Changing one place -/

/-- The places that are directories in every `FileTree`: the working directory and the roots. -/
def IsRoot (location : Location) : Prop :=
  location = [] ∨ location = ["/".toList] ∨ location = ["//".toList]

instance (location : Location) : Decidable (IsRoot location) :=
  inferInstanceAs (Decidable (_ ∨ _ ∨ _))

/-- A directory is the `node?` at a root, and elsewhere the nodes of the tree say what stands there.
-/
theorem node?_eq (tree : FileTree) (location : Location) :
    tree.node? location =
      if IsRoot location then some .directory else tree.nodes.lookup location := by
  rw [node?]
  refine if_congr ?_ rfl rfl
  simp [IsRoot, or_assoc]

variable {tree : FileTree} {location place : Location} {node : Node}

/-- Where something else than a directory stands, or nothing, there is none that `IsRoot`. -/
theorem not_isRoot (h : tree.node? location ≠ some .directory) : ¬IsRoot location := by
  intro hroot
  rw [node?_eq, if_pos hroot] at h
  exact h rfl

/-- A location at which nothing stands is none that `IsRoot`, as roots are directories. -/
theorem not_isRoot_of_free (h : tree.node? location = none) : ¬IsRoot location :=
  not_isRoot (fun hdirectory => by rw [h] at hdirectory; cases hdirectory)

/-- To `set` something at a location changes what stands at no other. -/
theorem node?_set_of_ne (h : place ≠ location) : (tree.set location node).node? place =
    tree.node? place := by
  rw [node?_eq, node?_eq]
  refine if_congr Iff.rfl rfl ?_
  exact (lookup_walk (set.go location node) rfl (fun _ _ _ => rfl) place tree.nodes).trans
    (if_neg h)

/-- Behind `set`, the node stands at its location, if this is no root. -/
theorem node?_set_self (h : ¬IsRoot location) :
    (tree.set location node).node? location = some node := by
  rw [node?_eq, if_neg h]
  exact (lookup_walk (set.go location node) rfl (fun _ _ _ => rfl) location tree.nodes).trans
    (if_pos rfl)

/-- To `remove` what stands at a location changes what stands at no other. -/
theorem node?_remove_of_ne (h : place ≠ location) :
    (tree.remove location).node? place = tree.node? place := by
  rw [node?_eq, node?_eq]
  exact if_congr Iff.rfl rfl ((lookup_filter location place tree.nodes).trans (if_neg h))

/-- Behind `remove`, nothing stands at the location, if this is no root. -/
theorem node?_remove_self (h : ¬IsRoot location) :
    (tree.remove location).node? location = none := by
  rw [node?_eq, if_neg h]
  exact (lookup_filter location location tree.nodes).trans (if_pos rfl)

/-! ### Following paths -/

/-- A path is followed by `follow` part by part. The path that faults name does not matter where
there are none. -/
theorem follow_append_eq_ok_iff (tree : FileTree) (path path' : Path) (here : Location)
    (parts more : List Text) (there : Location) :
    tree.follow path here (parts ++ more) = .ok there ↔
      ∃ between, tree.follow path' here parts = .ok between ∧
        tree.follow path between more = .ok there := by
  induction parts generalizing here with
  | nil => simp [follow]
  | cons part parts ih =>
    rw [List.cons_append, follow, follow]
    split
    · simp
    · split
      · simp
      · exact ih (step here part)

/-- With more directories, `follow` keeps a path going where it went. -/
theorem follow_mono {after : FileTree}
    (hdirs : ∀ l, tree.hasDirectory l = true → after.hasDirectory l = true) {path : Path}
    {here there : Location} {parts : List Text} (h : tree.follow path here parts = .ok there) :
    after.follow path here parts = .ok there := by
  induction parts generalizing here with
  | nil => exact h
  | cons part parts ih =>
    rw [follow] at h
    split at h
    · cases h
    · next hhere =>
      split at h
      · cases h
      · next hlength =>
        -- Every step starts in a directory of the first tree, which is one of the second.
        have hafter := hdirs here (by simpa using hhere)
        rw [follow, if_neg (by simp [hafter]), if_neg hlength]
        exact ih h

/-- With more directories, `locate` finds a path where it was. -/
theorem locate_mono {after : FileTree}
    (hdirs : ∀ l, tree.hasDirectory l = true → after.hasDirectory l = true) {path : Path}
    {there : Location} (h : tree.locate path = .ok there) : after.locate path = .ok there := by
  rw [locate] at h ⊢
  split at h
  · cases h
  · next hnull =>
    split at h
    · cases h
    · next hlength =>
      rw [if_neg hnull, if_neg hlength]
      exact follow_mono hdirs h

/-- The place where `locate` finds a file is one step behind that of its directory. -/
theorem locate_join {path : Path} {directory there : Location} {name : Text}
    (hdirectory : tree.locate path = .ok directory)
    (h : tree.locate (path.join name) = .ok there) : there = step directory name := by
  -- Longer paths may be refused where shorter ones are not, so both are brought down to `follow`
  -- before they are compared.
  have hparent : tree.follow path (if path.root.isEmpty then [] else [path.root]) path.parts =
      .ok directory := by
    rw [locate] at hdirectory
    split at hdirectory
    · cases hdirectory
    · split at hdirectory
      · cases hdirectory
      · exact hdirectory
  rw [locate] at h
  split at h
  · cases h
  · split at h
    · cases h
    -- The path to the file follows the path to its directory and takes one step more.
    · obtain ⟨between, hbetween, hlast⟩ :=
        (follow_append_eq_ok_iff tree _ path _ path.parts [name] there).mp h
      rw [show (path.join name).root = path.root from rfl, hparent] at hbetween
      cases hbetween
      simp only [follow] at hlast
      split at hlast
      · cases hlast
      · split at hlast
        · cases hlast
        · exact (Except.ok.inj hlast).symm

/-! ### Free names -/

/-- The `n`-th name that is tried for a temporary file, with eight digits for the number. -/
def candidate (name : Text) (n : Nat) : Text :=
  '.' :: name ++ '.' :: Text.padded 10 8 n ++ ".tmp"

/-- Different numbers make different names, since `Text.padded` is injective. -/
theorem candidate_injective (name : Text) : Function.Injective (candidate name) := by
  intro n m h
  have hdigits : Text.padded 10 8 n = Text.padded 10 8 m := by simpa [candidate] using h
  exact Text.padded_injective (by decide) (by decide) 8 hdigits

/-- The `temporaryName` is one of the candidates, also where the search found none free. -/
theorem temporaryName_eq (tree : FileTree) (directory : Location) (name : Text) :
    ∃ n, tree.temporaryName directory name = candidate name n := ⟨_, rfl⟩

/-- No location that `IsRoot` has the name of a `candidate` for a temporary file. -/
theorem not_isRoot_candidate (directory : Location) (name : Text) (n : Nat) :
    ¬IsRoot (directory ++ [candidate name n]) := by
  rintro (h | h | h)
  · simp at h
  · simp [List.append_eq_singleton_iff, candidate] at h
  · simp [List.append_eq_singleton_iff, candidate] at h

/-- Some `candidate` is free in a directory: there are more of them than things in the tree. -/
theorem exists_free_candidate (tree : FileTree) (directory : Location) (name : Text) :
    ∃ n ∈ List.range (tree.nodes.length + 1),
      tree.node? (directory ++ [candidate name n]) = none := by
  by_contra hnone
  simp only [not_exists, not_and] at hnone
  have hinjective : Function.Injective fun n => directory ++ [candidate name n] := by
    intro n m h
    exact candidate_injective name (by simpa using h)
  -- Were all of them taken, the tree would hold as many different locations.
  have htaken : (List.range (tree.nodes.length + 1)).map
      (fun n => directory ++ [candidate name n]) ⊆ tree.nodes.map Prod.fst := by
    intro place hplace
    obtain ⟨n, hn, rfl⟩ := List.mem_map.mp hplace
    have hnode := hnone n hn
    rw [node?_eq, if_neg (not_isRoot_candidate directory name n)] at hnode
    obtain ⟨node, hfound⟩ := Option.ne_none_iff_exists'.mp hnode
    obtain ⟨before, after, hnodes, -⟩ := List.lookup_eq_some_iff.mp hfound
    simp [hnodes]
  have hlength := (List.subperm_of_subset
    (List.nodup_range.map hinjective) htaken).length_le
  simp at hlength

/-- Nothing stands at the location of a `temporaryName`: the search goes on until a candidate is
free, and there are more of them than nodes. -/
theorem node?_temporaryName (directory : Location) (name : Text) :
    tree.node? (directory ++ [tree.temporaryName directory name]) = none := by
  obtain ⟨n, hn, hfree⟩ := exists_free_candidate tree directory name
  obtain ⟨m, hm⟩ : ∃ m, (List.range (tree.nodes.length + 1)).find?
      (fun n => (tree.node? (directory ++ [candidate name n])).isNone) = some m := by
    rw [← Option.isSome_iff_exists, List.find?_isSome]
    exact ⟨n, hn, by simp [hfree]⟩
  have hname : tree.temporaryName directory name = candidate name m := by
    show candidate name (((List.range (tree.nodes.length + 1)).find?
      (fun n => (tree.node? (directory ++ [candidate name n])).isNone)).getD _) = _
    rw [hm, Option.getD_some]
  rw [hname]
  simpa using List.find?_some hm

end TypedOps.FileTree
