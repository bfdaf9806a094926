import Caf.Desk.Basic

/-!
# Files stay where they were put

A file that is put where a path leads is what the path leads to from then on. Putting it may make
directories on the way to it, but none that the path is looked up in, which had to be there before,
and none at the path of the file itself. So whoever writes a file by its path finds it there, and
what a handle keeps in its file is what the handle sees next.

## Main results

* `Directory.hasFolder_put`: the directories that a file makes;
* `Directory.openToRead_put`: a path that could be written leads to what was put there;
* `Desk.onHandle_keep`: an action on a handle sees what the last one has kept.
-/

namespace Caf

namespace Directory

variable {directory : Directory} {path : List String} {bytes : ByteArray}

/-- Files that are put one after the other at `path` are replaced. -/
theorem put_put (directory : Directory) (path : List String) (old new : ByteArray) :
    (directory.put path old).put path new = directory.put path new := by
  unfold put
  congr 1
  induction directory.files with
  | nil => simp [putFile]
  | cons file files ih =>
    by_cases hpath : file.path = path
    · simp [putFile, hpath]
    · simp [putFile, hpath, ih]

/-- Among the paths of the files, a file that is put at `path` adds its own. -/
theorem any_path_put (directory : Directory) (path : List String) (bytes : ByteArray)
    (has : List String → Bool) :
    (directory.put path bytes).files.any (fun file => has file.path) =
      (directory.files.any (fun file => has file.path) || has path) := by
  unfold put
  dsimp only
  induction directory.files with
  | nil => simp [putFile]
  | cons file files ih =>
    by_cases hpath : file.path = path
    · -- The path was there already, so that it counts once more.
      rw [putFile, if_pos hpath, List.any_cons, List.any_cons, hpath, Bool.or_right_comm,
        Bool.or_self]
    · rw [putFile, if_neg hpath, List.any_cons, ih, List.any_cons, Bool.or_assoc]

/-- A file at `path` makes the directories above it, and no others. -/
theorem hasFolder_put (directory : Directory) (path : List String) (bytes : ByteArray)
    (here : List String) :
    (directory.put path bytes).hasFolder here =
      (directory.hasFolder here || (here.isPrefixOf path && here != path)) := by
  have hfiles := directory.any_path_put path bytes
    fun other => here.isPrefixOf other && here != other
  simp only [hasFolder, hfiles, Bool.or_assoc]
  rfl

/-- Where the `names` lead to a file or to a place for one, they lead to what was put there. -/
theorem walk_put {slash : Bool} {here names : List String} {old : ByteArray} (bytes : ByteArray)
    (h : directory.walk slash here names = .file path old ∨
      directory.walk slash here names = .free path) :
    (directory.put path bytes).walk slash here names = .file path bytes := by
  induction names generalizing here with
  | nil => simp [walk] at h
  | cons name names ih =>
    rw [walk] at h ⊢
    by_cases hlong : maxNameLength < name.utf8ByteSize
    · simp only [if_pos hlong] at h
      split at h <;> simp at h
    simp only [if_neg hlong] at h ⊢
    by_cases hfolder : directory.hasFolder (enter here name) = true
    · -- A directory on the way stays one.
      have hstays : (directory.put path bytes).hasFolder (enter here name) = true := by
        rw [hasFolder_put, hfolder, Bool.true_or]
      simp only [if_pos hfolder] at h
      rw [if_pos hstays]
      exact ih h
    simp only [if_neg hfolder] at h
    -- Only a last name without a slash behind it leads to a file, or to a place for one.
    obtain ⟨hslash, hnames⟩ : ¬ (slash = true ∧ names = []) ∧ names = [] := by
      by_cases hslash : slash = true ∧ names = []
      · simp only [if_pos hslash] at h
        cases hfind : directory.find? (enter here name) <;> simp [hfind] at h
      by_cases hnames : names = []
      · exact ⟨hslash, hnames⟩
      · simp only [if_neg hslash, if_neg hnames] at h
        cases hfind : directory.find? (enter here name) <;> simp [hfind] at h
    have hpath : enter here name = path := by
      simp only [if_neg hslash, if_pos hnames] at h
      cases hfind : directory.find? (enter here name) with
      | none => simpa [hfind] using h
      | some file =>
        simp only [hfind, Place.file.injEq, reduceCtorEq, or_false] at h
        exact h.1
    -- A file makes no directory at its own path.
    have hfile : (directory.put path bytes).hasFolder (enter here name) ≠ true := by
      rw [hasFolder_put, hpath, bne_self_eq_false, Bool.and_false, Bool.or_false, ← hpath]
      exact hfolder
    rw [if_neg hfile, hpath, find?_put_self]
    simp only [if_neg hslash, if_pos hnames]

theorem place_put {name : String} {old : ByteArray} (bytes : ByteArray)
    (h : directory.place name = .file path old ∨ directory.place name = .free path) :
    (directory.put path bytes).place name = .file path bytes := by
  unfold place at h ⊢
  by_cases hnul : name.toList.contains '\x00' = true
  · simp only [if_pos hnul, reduceCtorEq, or_self] at h
  by_cases hempty : name = ""
  · simp only [if_neg hnul, if_pos hempty, reduceCtorEq, or_self] at h
  by_cases hlong : maxPathLength < name.utf8ByteSize
  · simp only [if_neg hnul, if_neg hempty, if_pos hlong, reduceCtorEq, or_self] at h
  simp only [if_neg hnul, if_neg hempty, if_neg hlong] at h ⊢
  exact walk_put bytes h

/-- A `name` that could be opened for writing leads to what was put there. -/
theorem openToRead_put {name : String} {old : ByteArray}
    (h : directory.openToWrite name = .ok (path, old)) (bytes : ByteArray) :
    (directory.put path bytes).openToRead name = .ok (path, storeOf bytes) := by
  have hplace : directory.place name = .file path old ∨ directory.place name = .free path := by
    unfold openToWrite at h
    cases hplace : directory.place name <;> simp_all
  rw [openToRead, place_put bytes hplace]

end Directory

namespace Desk

/-- What is kept in a file replaces what was kept there before. -/
theorem keep_keep (directory : Directory) (path : List String) (old new : Bench) :
    keep (keep directory path old).directory path new = keep directory path new := by
  simp only [keep, Directory.put_put]

/-- An `action` of a writer sees what the writer has kept in its file. -/
theorem onHandle_keep {α : Type} (directory : Directory) (path : List String) (writer : Writer)
    (action : Bench → α × Bench) :
    (keep directory path (.writing writer)).onHandle action =
      (some (action (.writing writer)).1, keep directory path (action (.writing writer)).2) := by
  have hfile : (keep directory path (.writing writer)).directory.find? path =
      some ⟨path, writer.store.bytes⟩ := Directory.find?_put_self ..
  have hhandle : (keep directory path (.writing writer)).handle =
      some ⟨path, .writing writer⟩ := rfl
  have hsame : (Bench.writing writer).mapStore
      (fun store => { store with bytes := writer.store.bytes }) = .writing writer := rfl
  rw [onHandle, hhandle]
  simp only [hfile, hsame, keep_keep]

end Desk

end Caf
