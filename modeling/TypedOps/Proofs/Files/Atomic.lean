import TypedOps.Proofs.Files.Tree
import TypedOps.Proofs.Support.Except

/-!
# `TypedOps.Proofs.Files.Atomic`: a file is written as a whole or not at all

`file?` is the content of the file at a location, and `SameFiles` says that two trees hold
the same files: every old one with its bytes, and no new one. Directories are left out, since
making the directories for a file is not undone when the file cannot be written.

* `makeDirectories_sameFiles`: directories take the place of nothing. Each is made where
  nothing stood.
* `writeAtomically_cases`: a write that is refused leaves the same files, wherever it is
  refused, and one that is not leaves the content at the location of its path and every other
  file as it was (`Wrote`). The temporary file stands where nothing stood, and is gone in both
  cases.
-/

set_option autoImplicit false

namespace TypedOps.FileTree

/-- The content of the file at a location, if `node?` finds a file there. -/
def file? (tree : FileTree) (location : Location) : Option Bytes :=
  match tree.node? location with
  | some (.file content) => some content
  | _ => none

/-- The files of two trees are the same, as `file?` gives them. Directories may have been added. -/
def SameFiles (before after : FileTree) : Prop :=
  ∀ location, after.file? location = before.file? location

/-- After a write the content stands at the location of the path, and every other `file?` is as it
was. -/
def Wrote (before after : FileTree) (path : Path) (content : Bytes) : Prop :=
  ∃ location, after.locate path = .ok location ∧ after.file? location = some content ∧
    ∀ place, place ≠ location → after.file? place = before.file? place

variable {tree before after : FileTree} {location place : Location}

/-- Whether there is a `file?` at a place, and with what content, depends on the node at this place
alone. -/
theorem file?_congr (h : after.node? place = before.node? place) :
    after.file? place = before.file? place := by
  rw [file?, file?, h]

/-- There is a `file?` with a content exactly where a node with this content stands. -/
theorem file?_eq_some_iff {content : Bytes} :
    tree.file? location = some content ↔ tree.node? location = some (.file content) := by
  rw [file?]
  rcases tree.node? location with _ | (content' | _) <;> simp

/-- There is no `file?` at a location where nothing stands. -/
theorem file?_of_free (h : tree.node? location = none) : tree.file? location = none := by
  rw [file?, h]

/-- A tree has `SameFiles` as itself, which is the case of a write that changed nothing. -/
theorem SameFiles.refl (tree : FileTree) : SameFiles tree tree := fun _ => rfl

/-- Two changes in a row that keep `SameFiles` keep them together. -/
theorem SameFiles.trans {between : FileTree} (h : SameFiles before between)
    (h' : SameFiles between after) : SameFiles before after :=
  fun place => (h' place).trans (h place)

/-- A write behind a change that keeps the files is one that `Wrote` as seen from before the change.
-/
theorem SameFiles.wrote {between : FileTree} {path : Path} {content : Bytes}
    (h : SameFiles before between) (h' : Wrote between after path content) :
    Wrote before after path content := by
  obtain ⟨location, hlocation, hcontent, hothers⟩ := h'
  exact ⟨location, hlocation, hcontent, fun place hplace => (hothers place hplace).trans (h place)⟩

/-! ### Directories -/

/-- The files are kept by `makeDirectory`, since a directory is made where nothing stood. -/
theorem makeDirectory_sameFiles {path : Path} {made : FileTree}
    (h : tree.makeDirectory path = .ok made) : SameFiles tree made := by
  obtain ⟨location, -, h⟩ := (bind_eq_ok_iff ..).mp h
  split at h
  · next hfree =>
    cases h
    intro place
    by_cases hplace : place = location
    · subst hplace
      have hroot : ¬IsRoot place := not_isRoot_of_free hfree
      rw [file?_of_free hfree, file?, node?_set_self hroot]
    · exact file?_congr (node?_set_of_ne hplace)
  · cases h

/-- The files are kept by `makeDirectoriesFrom`, also where one of the directories above a path is
refused. -/
theorem makeDirectoriesFrom_sameFiles (tree : FileTree) (path : Path) (fuel : Nat) :
    SameFiles tree (tree.makeDirectoriesFrom path fuel).2 := by
  -- The induction counts the parts down. A directory is made only after those above it, and each of
  -- these steps keeps the files.
  induction fuel generalizing path with
  | zero => exact SameFiles.refl tree
  | succ fuel ih =>
    rw [makeDirectoriesFrom]
    split
    · next made hmade => exact makeDirectory_sameFiles hmade
    · split
      · exact SameFiles.refl tree
      · have habove := ih path.parent
        split
        · next fault above hfrom =>
          rw [hfrom] at habove
          exact habove
        · next above hfrom =>
          rw [hfrom] at habove
          split
          · next made hmade => exact habove.trans (makeDirectory_sameFiles hmade)
          · exact habove
    · exact SameFiles.refl tree

/-- The call `makeDirectories` changes no file, whether it succeeds or not. -/
theorem makeDirectories_sameFiles (tree : FileTree) (path : Path) :
    SameFiles tree (tree.makeDirectories path).2 :=
  makeDirectoriesFrom_sameFiles tree path _

/-! ### The temporary file -/

/-- The `temporaryPath` leads to where nothing stood, and to no root. -/
theorem temporaryPath_free {path temporary : Path} {source : Location}
    (h : tree.temporaryPath path = .ok (temporary, source)) :
    tree.node? source = none ∧ ¬IsRoot source := by
  obtain ⟨directory, hdirectory, h⟩ := (bind_eq_ok_iff ..).mp h
  obtain ⟨place, hplace, h⟩ := (bind_eq_ok_iff ..).mp h
  cases h
  obtain ⟨n, hname⟩ := temporaryName_eq tree directory path.name
  have hstep := locate_join hdirectory hplace
  have hup : tree.temporaryName directory path.name ≠ "..".toList := by
    intro h
    have hlength := congrArg List.length (hname.symm.trans h)
    simp [candidate] at hlength
    omega
  -- The step to the temporary file leads down, as its name is longer than two points.
  rw [step, if_neg hup] at hstep
  rw [hstep]
  exact ⟨node?_temporaryName directory path.name,
    hname ▸ not_isRoot_candidate directory path.name n⟩

/-- A file put where nothing stood and taken away by `remove` again leaves the same files. -/
theorem remove_set_sameFiles (hfree : tree.node? location = none) (node : Node) :
    SameFiles tree ((tree.set location node).remove location) := by
  have hroot : ¬IsRoot location := not_isRoot_of_free hfree
  intro place
  by_cases hplace : place = location
  · rw [hplace, file?_of_free hfree, file?_of_free (node?_remove_self hroot)]
  · exact file?_congr ((node?_remove_of_ne hplace).trans (node?_set_of_ne hplace))

/-- A file put where nothing stood and brought by `rename` to a path is a file written to the path,
in one step. -/
theorem rename_wrote {source : Location} {temporary path : Path} {content : Bytes}
    (hfree : tree.node? source = none)
    (h : (tree.set source (.file content)).rename source temporary path = .ok after) :
    Wrote tree after path content := by
  have hsource : (tree.set source (.file content)).node? source = some (.file content) :=
    node?_set_self (not_isRoot_of_free hfree)
  rw [rename] at h
  split at h
  · cases h
  obtain ⟨target, htarget, h⟩ := (bind_eq_ok_iff ..).mp h
  rw [hsource] at h
  split at h
  · cases h
  · next node heq htarget_file =>
    cases heq
    cases h
    have hdirs : ∀ l, (tree.set source (.file content)).hasDirectory l = true →
        (((tree.set source (.file content)).remove source).set target
          (.file content)).hasDirectory l = true := by
      intro l hl
      rw [hasDirectory, beq_iff_eq] at hl ⊢
      -- A location with a directory is neither that of the temporary file nor that of the target,
      -- so it is left alone.
      have hne : l ≠ source := by
        rintro rfl
        rw [hsource] at hl
        cases hl
      have hne' : l ≠ target := by
        rintro rfl
        exact htarget_file hl
      rw [node?_set_of_ne hne', node?_remove_of_ne hne, hl]
    refine ⟨target, locate_mono hdirs htarget,
      file?_eq_some_iff.mpr (node?_set_self (not_isRoot htarget_file)), fun place hplace => ?_⟩
    rw [file?_congr (node?_set_of_ne hplace)]
    exact remove_set_sameFiles hfree _ place
  · cases h

/-- A write by `writeAtomically` that is refused leaves the same files, and one that is not writes
its content to the location of its path and changes no other file. -/
theorem writeAtomically_cases (tree : FileTree) (path : Path) (content : Bytes) :
    match tree.writeAtomically path content with
    | (.error _, after) => SameFiles tree after
    | (.ok (), after) => Wrote tree after path content := by
  have hdirectories := makeDirectories_sameFiles tree path.parent
  rw [writeAtomically]
  -- The steps of a write are gone through in order, and each fault leaves the tree that the steps
  -- before it have made.
  rcases hmade : tree.makeDirectories path.parent with ⟨fault | ⟨⟩, made⟩
  · simpa only [hmade] using hdirectories
  · rw [hmade] at hdirectories
    rcases hsource : made.temporaryPath path with fault | ⟨temporary, source⟩
    · simpa only [hsource] using hdirectories
    · have hfree := (temporaryPath_free hsource).1
      rcases hrename : (made.set source (.file content)).rename source temporary path with
        fault | renamed
      · simp only [hsource, hrename]
        exact hdirectories.trans (remove_set_sameFiles hfree _)
      · simp only [hsource, hrename]
        exact hdirectories.wrote (rename_wrote hfree hrename)

end TypedOps.FileTree
