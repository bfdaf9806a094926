import Caf.Desk.Bench
import Caf.Desk.Directory

/-!
# A desk for containers in files

Containers are opened, created and appended to by path. What a handle writes is in its file at once.
Creating a container replaces what the file held; appending makes the file when there is none.
-/

namespace Caf

/-- A handle on a file of a directory. -/
structure FileHandle where
  /-- The file. -/
  path : List String
  /-- The handle. -/
  bench : Bench

/-- A directory with at most one open file. What the handle writes is in the file at once. -/
structure Desk where
  /-- The files. -/
  directory : Directory
  /-- The open file. -/
  handle : Option FileHandle := none

namespace Desk

/-- A desk on which the file at `path` holds what the store of `bench` holds. A bench without a
handle leaves the desk without one. -/
def keep (directory : Directory) (path : List String) (bench : Bench) : Desk :=
  { directory := directory.put path bench.store.bytes
    handle :=
      match bench with
      | .idle _ => none
      | _ => some { path, bench } }

/-- Runs `action` on the open handle, which sees what the file holds now. -/
def onHandle {α : Type} (action : Bench → α × Bench) (desk : Desk) : Option α × Desk :=
  match desk.handle with
  | none => (none, desk)
  | some { path, bench } =>
    let bench :=
      match desk.directory.find? path with
      | some file => bench.mapStore fun store => { store with bytes := file.bytes }
      | none => bench
    let (x, bench) := action bench
    (some x, keep desk.directory path bench)

/-- Lets go of the open file. -/
def release (desk : Desk) : Desk :=
  (desk.onHandle fun bench => ((), Bench.idle bench.release)).2

/-- Puts a `handle` on a file of the given `bytes`, or none when `operation` fails. Whatever
happens, the file is there afterwards. -/
def start {α : Type} (desk : Desk) (path : List String) (bytes : ByteArray)
    (operation : CafM α) (handle : α → Store → Bench) : Except Error Unit × Desk :=
  let (result, bench) := Bench.start operation handle (Directory.storeOf bytes)
  (result, keep desk.directory path bench)

/-- Opens the container at `path` for reading (`open_path`). -/
def openForReading (path : String) (desk : Desk) : Except Error Unit × Desk :=
  let desk := desk.release
  match desk.directory.openToRead path with
  | .error e => (.error (.device e), desk)
  | .ok (path, store) =>
    match Bench.start Reader.ofStore .reading store with
    | (.ok (), bench) => (.ok (), { desk with handle := some { path, bench } })
    | (.error e, _) => (.error e, desk)

/-- Starts a new container at `path` (`create_path`). The request is checked before the file is
touched; a file that is there is replaced. -/
def create (path : String) (request : StreamRequest) (desk : Desk) : Except Error Unit × Desk :=
  let desk := desk.release
  match request.check with
  | .error e => (.error e, desk)
  | .ok () =>
    match desk.directory.openToWrite path with
    | .error e => (.error (.device e), desk)
    | .ok (path, _) =>
      desk.start path ByteArray.empty (Writer.create request) fun writer _ => .writing writer

/-- Continues the container at `path` (`append_path`). A file that is not there is made first. -/
def append (path : String) (request : StreamRequest) (desk : Desk) : Except Error Unit × Desk :=
  let desk := desk.release
  match desk.directory.openToWrite path with
  | .error e => (.error (.device e), desk)
  | .ok (path, bytes) =>
    desk.start path bytes (Writer.append request) fun writer _ => .writing writer

end Desk

end Caf
