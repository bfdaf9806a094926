import Caf.Desk.Basic
import Caf.Proofs.Container.Refusing

/-!
# What a refused continuation leaves in a directory

Continuing the container at a path takes a handle on a file first, and a file that is not there is
made for that. What is refused after that is still as it was, so that the directory is the one
before, but for a file that has been made: it is empty, and it stays.

## Main definitions

* `Directory.Tells`: what a place says about the files of a directory.

## Main results

* `Directory.tells_place`: a path leads to a file that is there, or to one that could be made;
* `Desk.append_eq_error`: what is left when a stream at a path is not continued.
-/

namespace Caf

/-! ## Places and files -/

namespace Directory

variable {directory : Directory} {path : List String} {bytes : ByteArray}

/-- What a place says about the files of `directory`: a file is there with its bytes, and a file
that could be made is not there. -/
def Tells (directory : Directory) : Place → Prop
  | .file path bytes => directory.find? path = some ⟨path, bytes⟩
  | .free path => directory.find? path = none
  | _ => True

/-- The file that is found at `path` has this path. -/
theorem path_of_find? {file : File} (h : directory.find? path = some file) : file.path = path := by
  simpa using List.find?_some h

/-- Wherever `names` lead, the place tells the truth about the files. -/
theorem tells_walk (directory : Directory) (slash : Bool) (here names : List String) :
    directory.Tells (directory.walk slash here names) := by
  -- Only the last name can lead to a file, and it is looked up there.
  induction names generalizing here with
  | nil => exact trivial
  | cons name names ih =>
    rw [walk]
    by_cases hlong : maxNameLength < name.utf8ByteSize
    · simp only [if_pos hlong]
      split <;> exact trivial
    simp only [if_neg hlong]
    by_cases hfolder : directory.hasFolder (enter here name) = true
    · simp only [if_pos hfolder]
      exact ih (enter here name)
    simp only [if_neg hfolder]
    cases hfind : directory.find? (enter here name) with
    | none =>
      simp only
      split
      · exact trivial
      · split
        · exact hfind
        · exact trivial
    | some file =>
      have hpath := path_of_find? hfind
      simp only
      split
      · exact trivial
      · split
        · exact hpath ▸ hfind
        · exact trivial

/-- Wherever `path` leads, the place tells the truth about the files. -/
theorem tells_place (directory : Directory) (path : String) :
    directory.Tells (directory.place path) := by
  unfold place
  split
  · exact trivial
  · split
    · exact trivial
    · split
      · exact trivial
      · exact tells_walk ..

/-- A file that is put where it is already changes nothing. -/
theorem put_eq_self (h : directory.find? path = some ⟨path, bytes⟩) :
    directory.put path bytes = directory := by
  have hfiles : ∀ files : List File, files.find? (·.path == path) = some ⟨path, bytes⟩ →
      putFile path bytes files = files := by
    intro files hfound
    -- The file that is found is the one that is replaced, and it is replaced by itself.
    induction files with
    | nil => cases hfound
    | cons file files ih =>
      by_cases hpath : file.path = path
      case pos =>
        rw [List.find?_cons_of_pos (by simpa using hpath)] at hfound
        rw [putFile, if_pos hpath, ← Option.some.inj hfound]
      case neg =>
        rw [List.find?_cons_of_neg (by simpa using hpath)] at hfound
        rw [putFile, if_neg hpath, ih hfound]
  rw [put, hfiles directory.files h]

/-! ## Files as stores -/

/-- A file that holds `bytes` is a store without faults where the medium has their offsets. -/
theorem readable_storeOf (hsize : bytes.size < 2 ^ 63) : (storeOf bytes).Readable :=
  ⟨rfl, rfl, rfl, Nat.zero_le _, Nat.le_sub_one_of_lt hsize⟩

/-- A file accepts whatever ends at a `capacity` that the medium has. -/
theorem accepting_storeOf {capacity : Nat} (bytes : ByteArray) (h : capacity < 2 ^ 63) :
    (storeOf bytes).Accepting capacity where
  flush := rfl
  seek := rfl
  budget := rfl
  refusing := rfl
  phantom := rfl
  reach := Nat.le_sub_one_of_lt h
  writable := nofun
  capacity_lt := h

theorem open_storeOf (hsize : bytes.size < 2 ^ 63) : (storeOf bytes).Open where
  accepting := accepting_storeOf bytes (by decide)
  cursor := Nat.zero_le _
  size := Nat.le_sub_one_of_lt hsize
  size_lt := hsize

end Directory

/-- A file that `append` refuses is still as it was. -/
theorem Writer.bytes_of_append_storeOf {request : StreamRequest} {bytes : ByteArray} {e : Error}
    {left : Store} (h : append request (Directory.storeOf bytes) = .error e left) :
    left.bytes = bytes := by
  by_cases hsize : bytes.size < 2 ^ 63
  case pos =>
    exact bytes_of_append_error (Directory.readable_storeOf hsize) (Directory.open_storeOf hsize) h
  case neg =>
    -- A file that is too long to be measured is not even looked at.
    have hreach : Medium.file.reach < 2 ^ 63 := by decide
    have hfar : Medium.file.reach < bytes.size := Nat.lt_of_lt_of_le hreach (Nat.le_of_not_lt hsize)
    obtain ⟨cause, hlength⟩ : ∃ cause, Store.length (Directory.storeOf bytes) =
        .error cause (Directory.storeOf bytes) := Store.length_of_far hfar
    rw [append, Store.run, Store.explaining_of_error hlength] at h
    cases h
    rfl

/-! ## Refusals at a desk -/

namespace Desk

variable {desk left : Desk} {path : String} {request : StreamRequest} {e : Error}

/-- Where no handle is put on a file that holds `bytes`, it is still as it was, or as it was made.
-/
theorem start_append_of_error {file : List String} {bytes : ByteArray}
    {handle : Writer → Store → Bench}
    (h : desk.start file bytes (Writer.append request) handle = (.error e, left)) :
    (∃ store, Writer.append request (Directory.storeOf bytes) = .error e store) ∧
      left.directory = desk.directory.put file bytes := by
  rw [start, Bench.start] at h
  cases happend : Writer.append request (Directory.storeOf bytes) with
  | ok writer store =>
    rw [happend] at h
    cases h
  | error cause store =>
    have hbytes := Writer.bytes_of_append_storeOf happend
    rw [happend] at h
    cases h
    exact ⟨⟨store, rfl⟩, congrArg (desk.directory.put file) hbytes⟩

/-- A path that leads to no file and to none that could be made changes nothing. -/
theorem append_of_unopened {cause : DeviceError}
    (h : desk.release.directory.openToWrite path = .error cause) :
    desk.append path request = (.error (.device cause), desk.release) := by
  rw [append]
  simp only [h]

/-- A `file` that is there is left as it was. -/
theorem append_of_file {file : List String} {bytes : ByteArray}
    (hplace : desk.release.directory.place path = .file file bytes)
    (h : desk.append path request = (.error e, left)) :
    left.directory = desk.release.directory := by
  have hfind : desk.release.directory.find? file = some ⟨file, bytes⟩ := by
    have htells := desk.release.directory.tells_place path
    rwa [hplace] at htells
  have hopen : desk.release.directory.openToWrite path = .ok (file, bytes) := by
    rw [Directory.openToWrite, hplace]
  rw [append] at h
  simp only [hopen] at h
  rw [(start_append_of_error h).2, Directory.put_eq_self hfind]

/-- A file that was not there has been made, and `request` is to blame. -/
theorem append_of_free {new : List String}
    (hplace : desk.release.directory.place path = .free new)
    (h : desk.append path request = (.error e, left)) :
    request.check = .error e ∧ left.directory = desk.release.directory.put new ByteArray.empty := by
  have hopen : desk.release.directory.openToWrite path = .ok (new, ByteArray.empty) := by
    rw [Directory.openToWrite, hplace]
  rw [append] at h
  simp only [hopen] at h
  obtain ⟨⟨store, happend⟩, hleft⟩ := start_append_of_error h
  -- There is no stream in an empty file, so that only the request can be refused.
  have hsize : ByteArray.empty.size < 2 ^ 63 := Nat.two_pow_pos 63
  have hread := Directory.readable_storeOf hsize
  rw [Writer.append_of_empty request hread rfl] at happend
  exact ⟨((Writer.create_eq_error_iff rfl (Directory.open_storeOf hsize)).1 happend).1, hleft⟩

/-- What a refused `append` leaves behind. The directory is the one before unless `path` led to a
file that could be made. Then `request` did not pass its checks, and a file is there that was not
there, without bytes; all the other files are as they were. -/
theorem append_eq_error (h : desk.append path request = (.error e, left)) :
    (left.directory = desk.release.directory ↔
      ∀ new, desk.release.directory.place path ≠ .free new) ∧
    ∀ new, desk.release.directory.place path = .free new →
      request.check = .error e ∧ desk.release.directory.find? new = none ∧
      left.directory.find? new = some ⟨new, ByteArray.empty⟩ ∧
      ∀ other, other ≠ new →
        left.directory.find? other = desk.release.directory.find? other := by
  have hfree : ∀ new, desk.release.directory.place path = .free new →
      request.check = .error e ∧ desk.release.directory.find? new = none ∧
      left.directory.find? new = some ⟨new, ByteArray.empty⟩ ∧
      ∀ other, other ≠ new →
        left.directory.find? other = desk.release.directory.find? other := by
    intro new hplace
    obtain ⟨hcheck, hleft⟩ := append_of_free hplace h
    have htells := desk.release.directory.tells_place path
    rw [hplace] at htells
    rw [hleft]
    exact ⟨hcheck, htells, Directory.find?_put_self .., fun other hne =>
      Directory.find?_put_of_ne _ _ hne⟩
  refine ⟨⟨?_, ?_⟩, hfree⟩
  · intro hsame new hplace
    -- The file that has been made was not there, so that the directory is another one.
    obtain ⟨-, hbefore, hafter, -⟩ := hfree new hplace
    rw [hsame, hbefore] at hafter
    cases hafter
  · intro hnone
    cases hplace : desk.release.directory.place path with
    | file file bytes => exact append_of_file hplace h
    | free new => exact absurd hplace (hnone new)
    | folder | slashed failure | missing | throughFile | tooLong | notAPath =>
      rw [append_of_unopened (by rw [Directory.openToWrite, hplace])] at h
      cases h
      rfl

/-- A file that is no container is refused and left as it was. -/
theorem append_eq_error_of_present :
    ∃ (desk left : Desk) (e : Error), desk.directory.files = [⟨["old.caf"], ⟨#[1, 2, 3]⟩⟩] ∧
      desk.append "old.caf" (.mono .pcm16 8000) = (.error e, left) ∧
      left.directory = desk.directory := by
  let desk : Desk := { directory := { files := [⟨["old.caf"], ⟨#[1, 2, 3]⟩⟩] } }
  have hrefused : (match (desk.append "old.caf" (.mono .pcm16 8000)).1 with
      | .ok _ => false
      | .error _ => true) = true := by
    decide +kernel
  cases hrun : desk.append "old.caf" (.mono .pcm16 8000) with
  | mk result left =>
    rw [hrun] at hrefused
    cases result with
    | ok _ => cases hrefused
    | error e =>
      refine ⟨desk, left, e, rfl, hrun, (append_eq_error hrun).1.2 ?_⟩
      have hplace : desk.release.directory.place "old.caf" =
          .file ["old.caf"] ⟨#[1, 2, 3]⟩ := rfl
      intro new hfree
      rw [hplace] at hfree
      cases hfree

/-- A request without channels is refused for a path without a file, and an empty file is there
afterwards. -/
theorem append_leaves_new_file :
    ∃ desk left : Desk, desk.directory.files = [] ∧ desk.handle = none ∧
      desk.append "bad.caf" ⟨.pcm16, 0, 8000, .file⟩ =
        (.error (.badParameter .noChannels), left) ∧
      desk.directory.find? ["bad.caf"] = none ∧
      left.directory.find? ["bad.caf"] = some ⟨["bad.caf"], ByteArray.empty⟩ :=
  ⟨{ directory := { files := [] } }, _, rfl, rfl, rfl, rfl, rfl⟩

end Desk

end Caf
