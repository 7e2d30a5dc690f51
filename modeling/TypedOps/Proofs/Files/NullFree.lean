import TypedOps.Proofs.Files.Tree
import TypedOps.Proofs.Support.Except
import TypedOps.Proofs.Text.Pieces
import TypedOps.Proofs.Text.Plain

/-!
# `TypedOps.Proofs.Files.NullFree`: paths without the code point zero

Every operation on files refuses a path with the code point zero in it, and it does so in a way
that nobody reports. `NullFree` says that a text, a path or the names of a tree are without it,
and `Accepts` that an operation does not refuse a path for it. Paths made from such paths and
names are of this kind again, so no operation on them is refused in this way
(`accepts_read`, `accepts_files?`, `accepts_writeAtomically`).
-/

set_option autoImplicit false

namespace TypedOps

/-- A text without the code point zero, as any text on a command line is. -/
def Text.NullFree (t : Text) : Prop := '\x00' ∉ t

instance (t : Text) : Decidable (Text.NullFree t) := inferInstanceAs (Decidable ('\x00' ∉ t))

open Text (NullFree)

/-! ### Paths -/

namespace Path

/-- A path whose parts are without the code point zero. No operation refuses such a path with
`nullInPath`. -/
structure NullFree (p : Path) : Prop where
  root : Text.NullFree p.root
  parts : ∀ part ∈ p.parts, Text.NullFree part

/-- The path that `ofText` makes of a text without the code point zero is without it. -/
theorem nullFree_ofText {t : Text} (h : Text.NullFree t) : (ofText t).NullFree := by
  refine ⟨?_, fun part hpart hnull => ?_⟩
  · show Text.NullFree (rootOf t)
    unfold rootOf
    split <;> decide
  · exact h (((Text.isInfix_splitOn '/' t).2 part (List.mem_filter.mp hpart).1).subset hnull)

variable {p : Path}

/-- The `text` of a path without the code point zero is without it. -/
theorem NullFree.text (h : p.NullFree) : Text.NullFree p.text := by
  unfold Path.text
  split
  · decide
  · intro hnull
    rcases List.mem_append.mp hnull with hnull | hnull
    · exact h.root hnull
    · rcases Text.mem_join hnull with hnull | ⟨part, hpart, hnull⟩
      · exact absurd hnull (by decide)
      · exact h.parts part hpart hnull

/-- The `parent` of a path without the code point zero is without it. -/
theorem NullFree.parent (h : p.NullFree) : p.parent.NullFree :=
  ⟨h.root, fun part hpart => h.parts part (List.dropLast_subset _ hpart)⟩

/-- A path one part longer, made by `join`, is without the code point zero if the part is. -/
theorem NullFree.join (h : p.NullFree) {part : Text} (hpart : Text.NullFree part) :
    (p.join part).NullFree := by
  refine ⟨h.root, fun other hother => ?_⟩
  rcases List.mem_append.mp hother with hother | hother
  · exact h.parts other hother
  · rwa [List.mem_singleton.mp hother]

/-- The `name` of a path without the code point zero is without it. -/
theorem NullFree.name (h : p.NullFree) : Text.NullFree p.name := by
  unfold Path.name
  cases hlast : p.parts.getLast? with
  | none => decide
  | some part => exact h.parts part (List.mem_of_getLast? hlast)

end Path

namespace FileTree

/-! ### Operations on files -/

/-- A tree whose names have `Text.NullFree`, as the names in a file system do. -/
def NullFree (tree : FileTree) : Prop :=
  ∀ entry ∈ tree.nodes, ∀ name ∈ entry.1, Text.NullFree name

instance (tree : FileTree) : Decidable tree.NullFree :=
  inferInstanceAs (Decidable (∀ entry ∈ tree.nodes, ∀ name ∈ entry.1, Text.NullFree name))

/-- An operation does not refuse a path for the code point zero. It may still fail with any other
`FileFault`. -/
def Accepts {α : Type} (result : Except FileFault α) : Prop :=
  ∀ path, result ≠ .error (.nullInPath path)

section
variable {α β : Type}

/-- If an operation `Accepts`, and the next one does for every result of the first, then both in a
row do. -/
theorem Accepts.bind {result : Except FileFault α} (h : Accepts result)
    {next : α → Except FileFault β} (hnext : ∀ a, result = .ok a → Accepts (next a)) :
    Accepts (result >>= next) := by
  intro path hfault
  rcases (bind_eq_error_iff ..).mp hfault with hfault | ⟨a, ha, hfault⟩
  · exact h path hfault
  · exact hnext a ha path hfault

/-- A computation that has its result `Accepts`, as it refuses nothing. -/
theorem accepts_ok (a : α) : Accepts (.ok a : Except FileFault α) := nofun

end

variable {tree : FileTree} {path : Path}

/-- The name of a `candidate` for a temporary file is without the code point zero if the name it is
made of is. -/
theorem nullFree_candidate {name : Text} (h : Text.NullFree name) (n : Nat) :
    Text.NullFree (candidate name n) := by
  have hdigits : Text.NullFree (Text.padded 10 8 n) := by
    intro hnull
    rcases List.mem_append.mp hnull with hnull | hnull
    · exact absurd (List.eq_of_mem_replicate hnull) (by decide)
    · obtain ⟨d, hd⟩ := Text.exists_digitChar_of_mem_toDigits hnull
      exact Nat.digitChar_ne '\x00' (by decide) hd.symm
  unfold Text.NullFree at *
  simp [candidate, h, hdigits]

/-- To `follow` a path refuses it for missing directories and long names only. -/
theorem accepts_follow (tree : FileTree) (path : Path) (here : Location) (parts : List Text) :
    Accepts (tree.follow path here parts) := by
  -- None of the three refusals on the way is about the code point zero.
  induction parts generalizing here with
  | nil => exact accepts_ok here
  | cons part parts ih =>
    rw [follow]
    split
    · rw [missingDirectory]
      split
      all_goals
        intro p hp
        cases hp
    · split
      · intro p hp
        cases hp
      · exact ih (step here part)

/-- To `locate` a path accepts it: this is where the code point zero would be refused. -/
theorem accepts_locate (h : path.NullFree) : Accepts (tree.locate path) := by
  rw [locate]
  split
  · next hnull => exact absurd (by simpa using hnull) h.text
  · split
    · intro p hp
      cases hp
    · exact accepts_follow tree path _ _

/-- To ask whether a path `isDirectory` never refuses it for the code point zero. -/
theorem accepts_isDirectory (tree : FileTree) (path : Path) : Accepts (tree.isDirectory path) := by
  rw [isDirectory]
  split <;> exact nofun

/-- To `read` a file accepts its path if this has no code point zero. -/
theorem accepts_read (h : path.NullFree) : Accepts (tree.read path) := by
  refine (accepts_locate h).bind fun location _ => ?_
  split <;> exact nofun

/-- To list the `files?` of a directory accepts its path if this has no code point zero. -/
theorem accepts_files? (h : path.NullFree) : Accepts (tree.files? path) := by
  refine (accepts_isDirectory tree path).bind fun there _ => ?_
  split
  · exact (accepts_locate h).bind fun location _ => accepts_ok _
  · exact accepts_ok none

/-- The paths of the `files?` in a directory are without the code point zero, since the names in the
tree are. -/
theorem nullFree_of_mem_files? (htree : tree.NullFree) (h : path.NullFree) {paths : List Path}
    (hpaths : tree.files? path = .ok (some paths)) : ∀ p ∈ paths, p.NullFree := by
  obtain ⟨there, -, hpaths⟩ := (bind_eq_ok_iff ..).mp hpaths
  split at hpaths
  · obtain ⟨location, -, hpaths⟩ := (bind_eq_ok_iff ..).mp hpaths
    cases hpaths
    intro p hp
    obtain ⟨name, hname, rfl⟩ := List.mem_map.mp hp
    refine h.join ?_
    obtain ⟨⟨place, node⟩, hentry, hfile⟩ :=
      List.mem_filterMap.mp (List.mem_mergeSort.mp hname)
    -- Only files are listed, each by the last part of its place, and the parts of places are as the
    -- tree has them.
    cases node with
    | directory => cases hfile
    | file content =>
      cases hlast : place.getLast? with
      | none =>
        simp [hlast] at hfile
      | some last =>
        simp only [hlast] at hfile
        split at hfile
        · cases hfile
          exact htree _ hentry _ (List.mem_of_getLast? hlast)
        · cases hfile
  · cases hpaths

/-! ### Writing -/

/-- To `makeDirectory` accepts its path if this has no code point zero. -/
theorem accepts_makeDirectory (tree : FileTree) (h : path.NullFree) :
    Accepts (tree.makeDirectory path) := by
  refine (accepts_locate h).bind fun location _ => ?_
  split <;> exact nofun

/-- A refusal that `unlessDirectory` takes back where there is a directory does not turn into one
for the code point zero. -/
theorem accepts_unlessDirectory (tree : FileTree) {fault : FileFault}
    (h : ∀ p, fault ≠ .nullInPath p) : Accepts (tree.unlessDirectory path fault) := by
  refine (accepts_isDirectory tree path).bind fun there _ => ?_
  split
  · exact nofun
  · intro p hp
    cases hp
    exact h p rfl

/-- To make the directories above a path, by `makeDirectoriesFrom`, accepts the path, by induction
over the steps upwards. -/
theorem accepts_makeDirectoriesFrom (tree : FileTree) (h : path.NullFree) (fuel : Nat) :
    Accepts (tree.makeDirectoriesFrom path fuel).1 := by
  induction fuel generalizing path with
  | zero => exact nofun
  | succ fuel ih =>
    rw [makeDirectoriesFrom]
    -- The path above a path without the code point zero has none either, so the induction applies
    -- to it.
    split
    · exact nofun
    · split
      · exact nofun
      · have habove := ih h.parent
        split
        · next hfrom =>
          rw [hfrom] at habove
          exact habove
        · next above _ =>
          split
          · exact nofun
          · next fault hfault =>
            exact accepts_unlessDirectory above fun p hp =>
              accepts_makeDirectory above h p (hp ▸ hfault)
    · next fault hfault =>
      exact accepts_unlessDirectory tree fun p hp => accepts_makeDirectory tree h p (hp ▸ hfault)

/-- To find a `temporaryPath` accepts the path that it is for. -/
theorem accepts_temporaryPath (tree : FileTree) (h : path.NullFree) :
    Accepts (tree.temporaryPath path) := by
  refine (accepts_locate h.parent).bind fun directory _ => ?_
  obtain ⟨n, hname⟩ := temporaryName_eq tree directory path.name
  have htemporary : (path.parent.join (tree.temporaryName directory path.name)).NullFree :=
    h.parent.join (hname ▸ nullFree_candidate h.name n)
  exact (accepts_locate htemporary).bind fun location _ => accepts_ok _

/-- To `rename` a file to a path accepts the path if this has no code point zero. -/
theorem accepts_rename (tree : FileTree) (source : Location) (temporary : Path)
    (h : path.NullFree) : Accepts (tree.rename source temporary path) := by
  rw [rename]
  split
  · exact nofun
  · refine (accepts_locate h).bind fun location _ => ?_
    split <;> exact nofun

/-- To `writeAtomically` accepts the path, so a fault of it is one of the file system. -/
theorem accepts_writeAtomically (tree : FileTree) (h : path.NullFree) (content : Bytes) :
    Accepts (tree.writeAtomically path content).1 := by
  have hdirectories := accepts_makeDirectoriesFrom tree h.parent (path.parent.parts.length + 1)
  rw [writeAtomically]
  rcases hmade : tree.makeDirectories path.parent with ⟨fault | ⟨⟩, made⟩
  · rw [makeDirectories] at hmade
    rwa [hmade] at hdirectories
  -- The temporary file stands beside the path, so its path is accepted where the other one is.
  · have htemporary := accepts_temporaryPath made h
    rcases hplace : made.temporaryPath path with fault | ⟨temporary, source⟩
    · rw [hplace] at htemporary
      simp only [hplace]
      exact fun p hp => htemporary p (by cases hp; rfl)
    · have hrename := accepts_rename (made.set source (.file content)) source temporary h
      rcases hnew : (made.set source (.file content)).rename source temporary path with
        fault | renamed
      · rw [hnew] at hrename
        simp only [hplace, hnew]
        exact fun p hp => hrename p (by cases hp; rfl)
      · simp only [hplace, hnew]
        exact nofun

end FileTree

end TypedOps
