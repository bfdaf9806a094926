import Caf.Store.Reading

/-!
# Directories

A directory is a list of files by path. `Directory.place` says what a path leads to, one name after
the other, and from that follows what can be opened for reading and for writing. Every handle on a
file has a store of its own on the bytes of the file.
-/

namespace Caf

/-- A file of a directory. -/
structure File where
  /-- The names on the way to the file, its own name last. -/
  path : List String
  /-- What it holds. -/
  bytes : ByteArray

/-- Files by path. -/
structure Directory where
  /-- The files. -/
  files : List File
  /-- Directories inside that are known to exist without having a file. -/
  folders : List (List String) := []

/-- What a path leads to. -/
inductive Place where
  /-- A file. -/
  | file (path : List String) (bytes : ByteArray)
  /-- A directory. -/
  | folder
  /-- Nothing, but a file could be made there. -/
  | free (path : List String)
  /-- No directory, although a slash at the end asks for one. The failure is that of looking for
  the directory. -/
  | slashed (failure : DeviceError)
  /-- Something in a directory that does not exist. -/
  | missing
  /-- Something behind a file. -/
  | throughFile
  /-- A name that is longer than names can be. -/
  | tooLong
  /-- A text that is no path. -/
  | notAPath

namespace Directory

/-- The longest name of a file, in bytes. -/
def maxNameLength : Nat := 255

/-- The longest path, in bytes. -/
def maxPathLength : Nat := 4095

/-- The parts of a path between its slashes, for a text that is given as a list of characters. -/
def splitSlashes : List Char → List (List Char)
  | [] => [[]]
  | c :: rest =>
    if c = '/' then [] :: splitSlashes rest
    else
      match splitSlashes rest with
      | [] => [[c]]
      | part :: parts => (c :: part) :: parts

/-- The names on the way that `path` describes. A slash in front stands for the root. -/
def names (path : String) : List String :=
  let parts := ((splitSlashes path.toList).map String.ofList).filter (· ≠ "")
  if path.toList.head? = some '/' then "/" :: parts else parts

/-- The directory above one. Above the directory that paths start from there is one without another
name. -/
def above : List String → List String
  | [] => [".."]
  | ["/"] => ["/"]
  | path => if path.getLast? = some ".." then path ++ [".."] else path.dropLast

/-- The path that `name` leads to from the directory at `here`. -/
def enter (here : List String) (name : String) : List String :=
  if name = "." then here else if name = ".." then above here else here ++ [name]

/-- The path that `names` lead to, one after the other. -/
def follow (names : List String) : List String :=
  names.foldl enter []

/-- The path of something in the directory that paths start from, or below it. -/
def isInside (path : List String) : Bool :=
  path.head? != some ".." && path.head? != some "/"

/-- The file of `directory` with the given path. -/
def find? (directory : Directory) (path : List String) : Option File :=
  directory.files.find? (·.path == path)

/-- The path of the directory that paths start from, of one above it, or of the root. These are
always there. -/
def isBase (path : List String) : Bool :=
  path == ["/"] || path.all (· == "..")

/-- There is a directory at `path`: one that is always there, one that is known or leads to one that
is known, or one with a file below it. -/
def hasFolder (directory : Directory) (path : List String) : Bool :=
  isBase path || directory.folders.any path.isPrefixOf ||
    directory.files.any fun file => path.isPrefixOf file.path && path != file.path

/-- What is at the end of the names, from the directory at `here` on. Every name but the last has to
lead to a directory; `slash` says that a slash stands behind the last one. -/
def walk (directory : Directory) (slash : Bool) : (here names : List String) → Place
  | _, [] => .folder
  | here, name :: names =>
    let path := enter here name
    let slashedEnd := slash ∧ names = []
    if maxNameLength < name.utf8ByteSize then
      if slashedEnd then .slashed .nameTooLong else .tooLong
    else if directory.hasFolder path then directory.walk slash path names
    else
      match directory.find? path with
      | some file =>
        if slashedEnd then .slashed .notDirectory
        else if names = [] then .file path file.bytes
        else .throughFile
      | none =>
        if slashedEnd then .slashed .notFound
        else if names = [] then .free path
        else .missing

/-- What `path` leads to. The empty path leads nowhere. -/
def place (directory : Directory) (path : String) : Place :=
  if path.toList.contains '\x00' then .notAPath
  else if path = "" then .missing
  else if maxPathLength < path.utf8ByteSize then .tooLong
  else directory.walk (path.toList.getLast? = some '/') [] (names path)

/-- Files with one at `path` that holds `bytes`, which replaces a file of the same path. -/
def putFile (path : List String) (bytes : ByteArray) : List File → List File
  | [] => [{ path, bytes }]
  | file :: files =>
    if file.path = path then { path, bytes } :: files else file :: putFile path bytes files

/-- A directory with a file at `path` that holds `bytes`, which replaces a file of the same path. -/
def put (directory : Directory) (path : List String) (bytes : ByteArray) : Directory :=
  { directory with files := putFile path bytes directory.files }

/-- A file that was put is found. -/
theorem find?_put_self (directory : Directory) (path : List String) (bytes : ByteArray) :
    (directory.put path bytes).find? path = some { path, bytes } := by
  unfold put find?
  dsimp only
  induction directory.files with
  | nil => simp [putFile]
  | cons file files ih =>
    by_cases h : file.path = path
    · simp [putFile, h]
    · rw [putFile, if_neg h, List.find?_cons_of_neg (by simpa using h)]
      exact ih

/-- Putting a file at `path` leaves the others alone. -/
theorem find?_put_of_ne (directory : Directory) {path other : List String} (bytes : ByteArray)
    (hne : other ≠ path) : (directory.put path bytes).find? other = directory.find? other := by
  unfold put find?
  dsimp only
  induction directory.files with
  | nil => simp [putFile, hne.symm]
  | cons file files ih =>
    by_cases h : file.path = path
    · rw [putFile, if_pos h, List.find?_cons_of_neg (by simpa using hne.symm),
        List.find?_cons_of_neg (by simpa [h] using hne.symm)]
    · rw [putFile, if_neg h]
      by_cases ho : file.path = other
      · simp [ho]
      · rw [List.find?_cons_of_neg (by simpa using ho), List.find?_cons_of_neg (by simpa using ho)]
        exact ih

/-- The store of an open file that holds `bytes`. -/
def storeOf (bytes : ByteArray) : Store :=
  { bytes, medium := .file }

/-- The store of a directory that was opened like a file: none of it can be read. -/
def folderStore : Store :=
  { bytes := ByteArray.empty
    medium := .file
    faults := { bad := some ⟨0, .isDirectory⟩ } }

/-- Opens what is at `path` for reading. A directory can be opened, but not read. -/
def openToRead (directory : Directory) (path : String) : Except DeviceError (List String × Store) :=
  match directory.place path with
  | .file path bytes => .ok (path, storeOf bytes)
  | .folder => .ok ([], folderStore)
  | .free _ => .error .notFound
  | .slashed failure => .error failure
  | .missing => .error .notFound
  | .throughFile => .error .notDirectory
  | .tooLong => .error .nameTooLong
  | .notAPath => .error .nulInPath

/-- All bytes of the file at `path`. A directory opens and then fails. -/
def bytesAt (directory : Directory) (path : String) : Except DeviceError ByteArray :=
  match directory.openToRead path with
  | .error e => .error e
  | .ok (_, store) =>
    -- One more than there are, so that the end is seen.
    match Store.fill (store.bytes.size + 1) store with
    | .ok bytes _ => .ok bytes
    | .error e _ => .error e

/-- A file or a directory is at `path`. -/
def leadsSomewhere (directory : Directory) (path : String) : Bool :=
  match directory.place path with
  | .file .. => true
  | .folder => true
  | _ => false

/-- The file at `path` that can be written, made when there is none. What is to be made is a file,
so a slash at the end fails before the last name is looked up. -/
def openToWrite (directory : Directory) (path : String) :
    Except DeviceError (List String × ByteArray) :=
  match directory.place path with
  | .file path bytes => .ok (path, bytes)
  | .folder => .error .isDirectory
  | .free path => .ok (path, ByteArray.empty)
  | .slashed _ => .error .isDirectory
  | .missing => .error .notFound
  | .throughFile => .error .notDirectory
  | .tooLong => .error .nameTooLong
  | .notAPath => .error .nulInPath

end Directory

end Caf
