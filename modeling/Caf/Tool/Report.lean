import Caf.Container.ChunkList
import Caf.Text.Pad
import Caf.Tool.JsonText
import Caf.Tool.Paint

/-!
# Reports

The texts that the tool prints: the summary of a stream, the listing of chunks, the list of
encodings and the line about a new file. Reports for machines hold the same values as JSON
documents.
-/

namespace Caf.Tool.Report

/-- The `title` of a report and the file at `path` that it is about. -/
def heading (colour : Bool) (title path : String) : String :=
  Paint.heading.apply colour title ++ " " ++ path ++ "\n"

/-- A field of a report with its `label`. -/
def field (colour : Bool) (label value : String) : String :=
  "  " ++ Paint.label.apply colour (padRight 14 (label ++ ":")) ++ " " ++ value ++ "\n"

/-- The number `n` as a JSON value. -/
def number (n : Nat) : JsonValue :=
  .number (toString n)

/-- The `summary` of a stream for machines. -/
def summaryRecord (path : String) (summary : Stream.Summary) (digest : Option String) :
    JsonRecord :=
  [("path", .text path), ("sample_rate", number summary.sampleRate.toNat),
   ("channels", number summary.channels.toNat), ("format", .text summary.encoding.name),
   ("endianness", .text summary.order.name), ("frames", number summary.frames),
   ("data_offset", number summary.start), ("data_length", number summary.length),
   ("duration_seconds", .number summary.duration.json)] ++
    (digest.map fun digest => ("data_hash", JsonValue.text digest)).toList

/-- The `summary` of a stream for readers. -/
def summary (colour : Bool) (path : String) (summary : Stream.Summary) (digest : Option String) :
    String :=
  let field := field colour
  heading colour "File:" path ++
    field "Format" (summary.encoding.name ++ " (" ++ summary.encoding.caption ++ ")") ++
    field "Channels" (toString summary.channels.toNat) ++
    field "Sample rate" (toString summary.sampleRate.toNat) ++
    field "Endianness" summary.order.name ++
    field "Frames" (toString summary.frames) ++
    field "Duration" (summary.duration.fixed 3 ++ " s") ++
    field "Data offset" (toString summary.start) ++
    field "Data length" (toString summary.length) ++
    ((digest.map (field "Data hash")).getD "")

/-- A chunk for machines. -/
def chunkRecord (entry : ChunkList.Entry) : JsonRecord :=
  [("tag", .text entry.kind.display), ("offset", number entry.offset),
   ("size", .number (toString entry.size.toInt))]

/-- A chunk for readers. A negative size stands for the rest of the file. -/
def chunkRow (entry : ChunkList.Entry) : String :=
  let size := if entry.size < 0 then "to EOF" else toString entry.size.toInt
  "  " ++ padRight 6 entry.kind.display ++ " " ++ padLeft 12 (toString entry.offset) ++ " " ++
    padLeft 12 size ++ "\n"

/-- The listing of chunks for readers: one row for each of `entries`. -/
def chunkTable (colour : Bool) (path : String) (entries : List ChunkList.Entry) : String :=
  let column := Paint.column.apply colour
  heading colour "Chunks:" path ++
    "  " ++ column (padRight 6 "tag") ++ " " ++ column (padLeft 12 "offset") ++ " " ++
      column (padLeft 12 "size") ++ "\n" ++
    String.join (entries.map chunkRow) ++
    "  " ++ toString entries.length ++ " chunk(s)\n"

/-- A row about `encoding` for readers. -/
def encodingRow (colour : Bool) (encoding : Encoding) : String :=
  "  " ++ Paint.name.apply colour (padRight 8 encoding.name) ++ " " ++
    padLeft 2 (toString encoding.bytesPerSample) ++ " byte(s)  " ++ encoding.caption ++ "\n"

/-- The list of encodings. -/
def encodingTable (colour : Bool) : String :=
  Paint.heading.apply colour "Supported sample formats:" ++ "\n" ++
    String.join (Encoding.all.map (encodingRow colour))

/-- The line about a new file at `path`. -/
def created (colour : Bool) (path : String) (frames : Nat) (summary : Stream.Summary) : String :=
  Paint.success.apply colour "SUCCESS" ++ " Wrote " ++ toString frames ++ " frame(s) of " ++
    summary.encoding.name ++ " x " ++ toString summary.channels.toNat ++ " @ " ++
    toString summary.sampleRate.toNat ++ " Hz (" ++ summary.order.name ++ ") to " ++ path ++ "\n"

/-- The line behind the journal of a header that could not be read because of `e`. -/
def unreadable (colour : Bool) (e : Error) : String :=
  Paint.failure.apply colour "!!" ++ " [" ++ e.code ++ "] " ++ e.message ++ "\n"

end Caf.Tool.Report
