import Caf.Tool.Run

/-!
# The program

The thin layer between the tool and the machine: it looks up what is at the path that the command
names, runs the tool on it, prints, and writes the file that the run has changed.
-/

namespace Caf.Tool

/-- The path that a command works on. -/
def Command.path? : Command → Option String
  | .info path _ _ => some path
  | .chunks path _ => some path
  | .log path => some path
  | .create options => some options.path
  | .formats => none

/-- There is a directory at `path`. -/
def folderAt (path : String) : IO Bool := do
  try
    let _ ← IO.FS.realPath (path ++ "/.")
    return true
  catch _ => return false

/-- The text of the path that leads along some names. -/
def pathAlong : List String → String
  | "/" :: names => "/" ++ String.intercalate "/" names
  | names => String.intercalate "/" names

/-- What is at `path` and on the way to it. -/
def directoryAt (path : String) : IO Directory := do
  let names := Directory.names path
  let mut folders := []
  for n in List.range names.length do
    let way := names.take (n + 1)
    if ← folderAt (pathAlong way) then
      folders := Directory.follow way :: folders
  try
    let bytes ← IO.FS.readBinFile (pathAlong names)
    return { files := [{ path := Directory.follow names, bytes }], folders }
  catch _ => return { files := [], folders }

/-- Runs the tool with `args` on the machine. -/
def perform (args : List String) : IO UInt32 := do
  let colour ← match ← IO.getEnv "CLICOLOR_FORCE" with
    | some value => pure (value != "0")
    | none => (← IO.getStdout).isTty
  let path? :=
    match Request.ofArguments args with
    | .run command => command.path?
    | _ => none
  let directory ← match path? with
    | some path => directoryAt path
    | none => pure { files := [] }
  let outcome := run colour args directory
  if let some path := path? then
    let way := Directory.follow (Directory.names path)
    if let some file := outcome.directory.find? way then
      if (directory.find? way).map (·.bytes) != some file.bytes then
        IO.FS.writeBinFile path file.bytes
  IO.print outcome.output
  if let some line := outcome.failure then
    IO.eprintln line
  return outcome.exit

end Caf.Tool

def main (args : List String) : IO UInt32 :=
  Caf.Tool.perform args
