import Caf.Record.FourCC

/-!
# Fixed sizes of the container

A container is an eight-byte file header followed by chunks. Each chunk is a twelve-byte header and
a payload. The first chunk is the description of the samples; the payload of the data chunk opens
with an edit count, and the samples follow it.
-/

namespace Caf

/-- The marker that every container starts with. -/
def containerMarker : FourCC := .ofChars 'c' 'a' 'f' 'f'

/-- The format version that is written. -/
def formatVersion : UInt16 := 1

/-- Bytes of the file header: marker, version and flags. -/
def fileHeaderSize : Nat := 8

/-- Bytes of a chunk header: type and payload size. -/
def chunkHeaderSize : Nat := 12

/-- Bytes of the description record. -/
def descriptionSize : Nat := 32

/-- Bytes of the edit count at the start of a data chunk's payload. -/
def editCountSize : Nat := 4

/-- Bytes in front of the first sample of a container that is written here: file header,
description chunk, header and edit count of the data chunk. -/
def headerSize : Nat :=
  fileHeaderSize + (chunkHeaderSize + descriptionSize) + (chunkHeaderSize + editCountSize)

/-- The edit count that is written into every data chunk. -/
def editCount : UInt32 := 1

end Caf
