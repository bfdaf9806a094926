import Caf.Decimal.Text
import Caf.Error.Defect
import Caf.Error.Device
import Caf.Record.Chunk

/-!
# Errors

An error is a cause: what was wrong, with the values that a reader needs to see. Its wording is
given by `Error.message` and by nothing else. `Error.kind` sorts causes into the five kinds that
callers tell apart, each with a stable code.
-/

namespace Caf

/-- The parts of a header that can be cut off by the end of the file. -/
inductive HeaderPart where
  /-- The file header. -/
  | fileHeader
  /-- The header of the description chunk. -/
  | descriptionHeader
  /-- The description record. -/
  | description
  /-- The header of a later chunk. -/
  | chunkHeader
  /-- The edit count of the data chunk. -/
  | editCount
  deriving DecidableEq, Repr

/-- What a part is called in messages. -/
def HeaderPart.label : HeaderPart → String
  | fileHeader => "file header"
  | descriptionHeader => "descriptor chunk header"
  | description => "descriptor"
  | chunkHeader => "chunk header"
  | editCount => "data chunk edit count"

/-- What makes a sequence of bytes no container. -/
inductive Malformed where
  /-- The file starts with another marker. -/
  | notCaf (marker : FourCC)
  /-- The file ends inside a part of the header. -/
  | truncated (part : HeaderPart)
  /-- The first chunk is not the description. -/
  | descriptionExpected (found : ChunkKind)
  /-- The description chunk is too small for its record. -/
  | descriptionTooSmall (size : Int64)
  /-- The chunks end without a data chunk. -/
  | noDataChunk
  /-- A chunk declares a negative size. -/
  | negativeSize (kind : ChunkKind) (size : Int64)
  /-- A chunk ends beyond the largest offset. -/
  | sizeOverflow
  /-- The rate is no positive 32-bit number. -/
  | invalidSampleRate (rate : Binary64)
  /-- The description has no channels. -/
  | zeroChannels
  /-- Fewer sample bytes are left than the file had when it was opened. -/
  | regionCutShort
  /-- Any other fault, in the caller's words. -/
  | note (text : String)
  deriving DecidableEq, Repr

/-- The wording of a fault in the layout. -/
def Malformed.message : Malformed → String
  | notCaf marker => "not a CAF file (marker " ++ marker.display ++ ")"
  | truncated part => "file truncated while reading " ++ part.label
  | descriptionExpected found => "expected 'desc' chunk, found '" ++ found.display ++ "'"
  | descriptionTooSmall size =>
    "'desc' chunk declares " ++ toString size.toInt ++ " bytes, need at least " ++
      toString descriptionSize
  | noDataChunk => "no 'data' chunk found"
  | negativeSize kind size =>
    "chunk '" ++ kind.display ++ "' declares negative size " ++ toString size.toInt
  | sizeOverflow => "chunk size overflows file offset"
  | invalidSampleRate rate => "invalid sample rate " ++ rate.plain
  | zeroChannels => "descriptor declares zero channels"
  | regionCutShort => "sample region shorter than the file length implies"
  | note text => text

/-- What a well-formed container or a caller can ask for that is not supported. -/
inductive Unsupported where
  /-- A description that fits no encoding. -/
  | description (id : FourCC) (flags bitsPerChannel bytesPerPacket : UInt32)
  /-- Appending where the samples do not directly follow a header of the usual size. -/
  | appendAt (offset expected : Nat)
  /-- A name that no encoding goes by. -/
  | encodingName (name : String)
  /-- Any other gap, in the caller's words. -/
  | note (text : String)
  deriving DecidableEq, Repr

/-- The wording of what is not supported. -/
def Unsupported.message : Unsupported → String
  | description id flags bitsPerChannel bytesPerPacket =>
    "format id '" ++ id.display ++ "', flags 0x" ++ Hex.ofNat flags.toNat ++ ", " ++
      toString bitsPerChannel.toNat ++ " bits per channel, " ++
      toString bytesPerPacket.toNat ++ " bytes per packet"
  | appendAt offset expected =>
    "cannot append: sample data starts at offset " ++ toString offset ++ ", expected " ++
      toString expected
  | encodingName name => "unimplemented sample format '" ++ name ++ "'"
  | note text => text

/-- What can be wrong with an argument. -/
inductive BadParameter where
  /-- No channels at all. -/
  | noChannels
  /-- More channels than can be written. -/
  | tooManyChannels (given limit : Nat)
  /-- A rate of zero. -/
  | zeroRate
  /-- A byte order name that is not known. -/
  | byteOrder (given : String)
  /-- A new stream needs an empty store. -/
  | storeNotEmpty (size : Nat)
  /-- More sample bytes than a data chunk can declare. -/
  | dataTooLong
  /-- A frame behind the last one. -/
  | frameBeyondEnd (frame frames : Nat)
  /-- Any other argument, in the caller's words. -/
  | note (name message : String)
  deriving DecidableEq, Repr

namespace BadParameter

/-- The argument that is meant. -/
def name : BadParameter → String
  | noChannels => "channels"
  | tooManyChannels .. => "channels"
  | zeroRate => "sample_rate"
  | byteOrder _ => "endian"
  | storeNotEmpty _ => "store"
  | dataTooLong => "data_length"
  | frameBeyondEnd .. => "frame"
  | note name _ => name

/-- What is wrong with it. -/
def message : BadParameter → String
  | noChannels => "must be at least 1"
  | tooManyChannels given limit =>
    toString given ++ " exceeds the maximum of " ++ toString limit
  | zeroRate => "must be positive"
  | byteOrder given => "expected file, little, big or cpu, got '" ++ given ++ "'"
  | storeNotEmpty size =>
    "holds " ++ toString size ++ " bytes; a new stream needs an empty store"
  | dataTooLong => "too large for a data chunk"
  | frameBeyondEnd frame frames =>
    toString frame ++ " is past the last frame (" ++ toString frames ++ ")"
  | note _ message => message

end BadParameter

/-- What opening, reading or writing a container can fail with. -/
inductive Error where
  /-- The bytes do not have the layout of a container; the offset says where that showed. -/
  | malformed (cause : Malformed) (offset : Option Nat)
  /-- The layout is fine, but the encoding is not supported. -/
  | unsupported (cause : Unsupported)
  /-- The device failed. -/
  | device (cause : DeviceError)
  /-- An argument is out of range. -/
  | badParameter (cause : BadParameter)
  /-- An earlier header write failed, and the writer does no further work. -/
  | broken
  /-- The operation itself went out of range. -/
  | defect (cause : Defect)
  deriving DecidableEq, Repr

namespace Error

/-- The kinds of errors that callers tell apart. -/
inductive Kind where
  /-- Not the layout of a container. -/
  | malformed
  /-- A container in an encoding that is not supported. -/
  | unsupported
  /-- The device failed. -/
  | device
  /-- An argument is out of range. -/
  | badParameter
  /-- The stream was left unusable. -/
  | broken
  /-- Not an error of the input at all. -/
  | defect
  deriving DecidableEq, Repr

/-- The kind of an error. -/
def kind : Error → Kind
  | malformed .. => .malformed
  | unsupported _ => .unsupported
  | device _ => .device
  | badParameter _ => .badParameter
  | broken => .broken
  | defect _ => .defect

/-- The stable code of a kind; defects have none. -/
def Kind.code : Kind → String
  | malformed => "CAF_001"
  | unsupported => "CAF_002"
  | device => "CAF_003"
  | badParameter => "CAF_004"
  | broken => "CAF_005"
  | defect => ""

/-- The stable code of an error. -/
def code (e : Error) : String :=
  e.kind.code

/-- The group that all these errors belong to. -/
def group (_ : Error) : String :=
  "caf"

/-- The input is not a well-formed container. -/
def concernsLayout (e : Error) : Bool :=
  e.kind == .malformed

/-- The encoding is not supported. -/
def concernsEncoding (e : Error) : Bool :=
  e.kind == .unsupported

/-- The wording of an error. -/
def message : Error → String
  | malformed cause _ => "malformed CAF file: " ++ cause.message
  | unsupported cause => "unsupported encoding: " ++ cause.message
  | device cause => "I/O error: " ++ cause.message
  | badParameter cause => "invalid parameter '" ++ cause.name ++ "': " ++ cause.message
  | broken => "stream is broken after an earlier header write failure"
  | defect cause => cause.message

/-- The fault `cause` in the layout, which showed at `offset`. -/
def malformedAt (cause : Malformed) (offset : Nat) : Error :=
  .malformed cause (some offset)

/-- A failure while `part` of the header at `offset` was read: running out of bytes is a fault in
the layout, and every other failure of the device stays what it is. -/
def whileReading (part : HeaderPart) (offset : Nat) : DeviceError → Error
  | .endOfBytes => malformedAt (.truncated part) offset
  | e => .device e

end Error

end Caf
