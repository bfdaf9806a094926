import Caf.Sample.Description
import Caf.Text.Pad

/-!
# Journals

While a header is read or written, a journal records what was seen, line by line. Warnings are lines
of their own kind. The text of a journal has one line for each entry, and a warning opens with four
stars and a blank.
-/

namespace Caf

/-- How serious a line of a journal is. -/
inductive Journal.Severity where
  /-- A field that was read or written. -/
  | remark
  /-- Input that contradicts itself. -/
  | warning
  deriving DecidableEq, Repr

/-- One line of a journal. -/
structure Journal.Line where
  /-- How serious it is. -/
  severity : Severity
  /-- What it says. -/
  text : String
  deriving DecidableEq, Repr

/-- The lines recorded for one header, first line first. -/
structure Journal where
  /-- The lines. -/
  lines : Array Journal.Line
  deriving DecidableEq, Repr

namespace Journal

/-- A journal without lines. -/
def empty : Journal := ⟨#[]⟩

/-- Records `text` as a plain line. -/
def remark (journal : Journal) (text : String) : Journal :=
  ⟨journal.lines.push ⟨.remark, text⟩⟩

/-- Records `text` as a warning. -/
def warn (journal : Journal) (text : String) : Journal :=
  ⟨journal.lines.push ⟨.warning, text⟩⟩

/-- Some line is a warning. -/
def warned (journal : Journal) : Bool :=
  journal.lines.any (·.severity == .warning)

/-- What the text of a line of this severity opens with. -/
def mark : Severity → String
  | .remark => ""
  | .warning => "**** "

/-- The lines as text, each ended by a newline. -/
def text (journal : Journal) : String :=
  journal.lines.foldl (fun text line => text ++ mark line.severity ++ line.text ++ "\n") ""

/-- Records a file header: the marker, the version, and the flags in hexadecimal. -/
def noteFileHeader (journal : Journal) (header : FileHeader) : Journal :=
  journal.remark header.marker.display
    |>.remark ("  Version : " ++ toString header.version.toNat)
    |>.remark ("  Flags   : " ++ Hex.ofNat header.flags.toNat)

/-- Records the `header` of a chunk that is read. -/
def noteChunk (journal : Journal) (header : ChunkHeader) : Journal :=
  journal.remark (header.kind.display ++ " : " ++ toString header.size.toInt)

/-- Records the `header` of a chunk that is passed over. -/
def notePassedChunk (journal : Journal) (header : ChunkHeader) : Journal :=
  journal.remark (" " ++ header.kind.display ++ " : " ++ toString header.size.toInt ++ " (skipped)")

/-- Records a description chunk: its `header`, and the record `d` field by field. -/
def noteDescription (journal : Journal) (header : ChunkHeader) (d : Description) : Journal :=
  journal.noteChunk header
    |>.remark ("  Sample rate      : " ++ padLeft 5 (d.sampleRate.fixed 3))
    |>.remark ("  Format id        : " ++ d.formatId.display)
    |>.remark ("  Format flags     : " ++ Hex.ofNat d.formatFlags.toNat)
    |>.remark ("  Bytes / packet   : " ++ toString d.bytesPerPacket.toNat)
    |>.remark ("  Frames / packet  : " ++ toString d.framesPerPacket.toNat)
    |>.remark ("  Channels / frame : " ++ toString d.channelsPerFrame.toNat)
    |>.remark ("  Bits / channel   : " ++ toString d.bitsPerChannel.toNat)

/-- Records the edit count of a data chunk. -/
def noteEditCount (journal : Journal) (count : UInt32) : Journal :=
  journal.remark ("  edit : " ++ toString count.toNat)

/-- The encoding that the record `d` describes (`decode`), and the journal with a warning when the
record contradicts itself. -/
def judge (journal : Journal) (d : Description) : Option Encoding × Journal :=
  match d.classify with
  | .found encoding => (some encoding, journal)
  | .reject reason => (none, journal.warn ("Ooops, " ++ reason ++ "."))
  | .pass => (none, journal)

/-- The journal does not change which encoding `judge` finds. -/
theorem judge_fst (journal : Journal) (d : Description) : (journal.judge d).1 = d.encoding? := by
  unfold judge Description.encoding?
  cases d.classify <;> rfl

end Journal

end Caf
