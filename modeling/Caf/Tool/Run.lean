import Caf.Desk.Basic
import Caf.Tool.Arguments
import Caf.Tool.Report
import Caf.Tool.Silence

/-!
# Running the tool

A run takes the arguments, the files and whether to colour, and yields an exit code, what is
printed, and the files afterwards. A command that fails prints one line about it: what was being
done, the error, and the cause of the error, with colons in between.
-/

namespace Caf.Tool

/-- The name of the tool. -/
def toolName : String := "cafkit"

/-- The version of the tool. -/
def toolVersion : String := "0.1.0"

/-- What a run leaves behind. -/
structure Outcome where
  /-- The exit code. -/
  exit : UInt32
  /-- What is printed. -/
  output : String
  /-- The line about a failure. -/
  failure : Option String
  /-- The files. -/
  directory : Directory

/-- Why a command failed. -/
inductive Trouble where
  /-- An error of the library, and what was being done. -/
  | library (doing : Option String) (cause : Error)
  /-- A file could not be opened. -/
  | opening (doing : String) (cause : DeviceError)

namespace Trouble

/-- The error `cause` with its own cause, if it has one. -/
def chain (cause : Error) : List String :=
  cause.message ::
    match cause with
    | .device io => [io.message]
    | _ => []

/-- Everything there is to say, from the outside to the inside. -/
def parts : Trouble → List String
  | library doing cause => doing.toList ++ chain cause
  | opening doing cause => [doing, cause.message]

/-- The line about `trouble`. -/
def line (colour : Bool) (trouble : Trouble) : String :=
  Paint.failure.apply colour "error" ++ ": " ++ String.intercalate ": " trouble.parts

end Trouble

/-- A command that did its work and has written `output`. -/
def Outcome.success (directory : Directory) (output : String) : Outcome :=
  { exit := 0, output, failure := none, directory }

/-- A command that failed because of `trouble`. -/
def Outcome.trouble (colour : Bool) (directory : Directory) (trouble : Trouble) : Outcome :=
  { exit := 1, output := "", failure := some (trouble.line colour), directory }

/-- A file that could not be opened for looking into it. -/
def openTrouble (path : String) (cause : DeviceError) : Trouble :=
  .opening ("Failed to open file: " ++ path) cause

/-- Something that failed on the file at `path`, while the tool was `doing` it. -/
def fileTrouble (doing path : String) (cause : Error) : Trouble :=
  .library (some (doing ++ ": " ++ path)) cause

/-- Opens the container in the file at `path`, and digests its samples where `hash` is wanted. -/
def summarize (directory : Directory) (path : String) (hash : Bool) :
    Except Trouble (Stream.Summary × Option String) :=
  let failedToOpen := fileTrouble "Failed to open CAF file" path
  match directory.openToRead path with
  | .error e => .error (failedToOpen (.device e))
  | .ok (_, store) =>
    match Reader.ofStore store with
    | .error e _ => .error (failedToOpen e)
    | .ok reader store =>
      if hash then
        match reader.digest store with
        | .ok digest _ => .ok (reader.summary, some digest)
        | .error e _ => .error (fileTrouble "Failed to hash sample data" path e)
      else .ok (reader.summary, none)

/-- Lists the chunks of the file at `path`. -/
def listing (directory : Directory) (path : String) : Except Trouble (List ChunkList.Entry) :=
  match directory.openToRead path with
  | .error e => .error (openTrouble path e)
  | .ok (_, store) =>
    match ChunkList.read store with
    | .ok entries _ => .ok entries
    | .error e _ => .error (fileTrouble "Failed to walk chunks" path e)

/-- The stream that a new file with `options` is to hold. The names are looked up before the numbers
are checked. -/
def streamRequest (options : NewFile) : Except Trouble StreamRequest :=
  match Encoding.ofName options.encoding with
  | .error e => .error (.library (some ("Unknown sample format: " ++ options.encoding)) e)
  | .ok encoding =>
    match ByteOrderRequest.ofName options.order with
    | .error e => .error (.library (some ("Unknown byte order: " ++ options.order)) e)
    | .ok order =>
      let request : StreamRequest :=
        { encoding, channels := options.channels, sampleRate := options.sampleRate, order }
      match request.check with
      | .error e => .error (.library none e)
      | .ok () => .ok request

/-- Writes silent frames, as many as `frames` says, and tells about the stream then. -/
def fillWithSilence (frames : Nat) : WriterM Stream.Summary := do
  writeSilence frames
  return (← get).summary

/-- Creates a file of silent frames for `options`, and tells about the stream in it. -/
def create (options : NewFile) (request : StreamRequest) (desk : Desk) :
    Except Trouble Stream.Summary × Desk :=
  let path := options.path
  match desk.create path request with
  | (.error e, desk) => (.error (fileTrouble "Failed to create CAF file" path e), desk)
  | (.ok (), desk) =>
    match desk.onHandle (Bench.onWriter (fillWithSilence options.frames)) with
    | (some (some (.ok summary)), desk) =>
      match desk.onHandle Bench.close with
      | (some (some (.error e)), desk) =>
        (.error (fileTrouble "Failed to finalize CAF file" path e), desk)
      | (_, desk) => (.ok summary, desk)
    -- The header of a file that could not be filled still tells what is in it.
    | (some (some (.error e)), desk) =>
      (.error (fileTrouble "Failed to write samples" path e), desk.release)
    | (_, desk) => (.error (fileTrouble "Failed to write samples" path .broken), desk.release)

/-- Runs a command on the files. -/
def runCommand (colour : Bool) (directory : Directory) : Command → Outcome
  | .info path json hash =>
    match summarize directory path hash with
    | .error trouble => .trouble colour directory trouble
    | .ok (summary, digest) =>
      .success directory
        (if json then JsonText.record "" (Report.summaryRecord path summary digest) ++ "\n"
          else Report.summary colour path summary digest)
  | .chunks path json =>
    match listing directory path with
    | .error trouble => .trouble colour directory trouble
    | .ok entries =>
      .success directory
        (if json then JsonText.list (entries.map Report.chunkRecord) ++ "\n"
          else Report.chunkTable colour path entries)
  | .log path =>
    match directory.openToRead path with
    | .error e => .trouble colour directory (openTrouble path e)
    | .ok (_, store) =>
      match (Header.survey store).1 with
      | (journal, .ok _) => .success directory journal.text
      | (journal, .error e) =>
        { exit := 1
          output := journal.text ++ Report.unreadable colour e
          failure := none
          directory }
  | .create options =>
    match streamRequest options with
    | .error trouble => .trouble colour directory trouble
    | .ok request =>
      match create options request { directory } with
      | (.error trouble, desk) => .trouble colour desk.directory trouble
      | (.ok summary, desk) =>
        .success desk.directory (Report.created colour options.path options.frames summary)
  | .formats => .success directory (Report.encodingTable colour)

/-- How the tool is called. -/
def usage : String :=
  "Usage: " ++ toolName ++ " [-v] info FILE [--json] [--hash]\n" ++
  "       " ++ toolName ++ " [-v] chunks FILE [--json]\n" ++
  "       " ++ toolName ++ " [-v] log FILE\n" ++
  "       " ++ toolName ++ " [-v] create FILE [-f FORMAT] [-c CHANNELS] [-r RATE] [-n FRAMES]" ++
    " [--endian ORDER]\n" ++
  "       " ++ toolName ++ " [-v] formats\n"

/-- Runs the tool with `args`. Arguments that mean nothing are reported with an exit code of their
own. -/
def run (colour : Bool) (args : List String) (directory : Directory) : Outcome :=
  match Request.ofArguments args with
  | .run command => runCommand colour directory command
  | .version none => .success directory (toolName ++ " " ++ toolVersion ++ "\n")
  | .version (some command) =>
    .success directory (toolName ++ "-" ++ command ++ " " ++ toolVersion ++ "\n")
  | .help => .success directory usage
  | .misuse => { exit := 2, output := "", failure := some usage, directory }

end Caf.Tool
