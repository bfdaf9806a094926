import Caf.Record.Layout

/-!
# File header and chunk headers

The file header is a marker, a version and flags. A chunk header is a type and the signed size of
the payload. Types are named by four-character codes; the known ones have names here and any other
code is kept as it is, so `ChunkKind.code_ofCode` holds for every code.
-/

namespace Caf

/-- The type of a chunk. Only `description` and `data` carry meaning for reading samples; every
other chunk is passed over by its size. -/
inductive ChunkKind where
  /-- Description of the samples. -/
  | description
  /-- The samples. -/
  | data
  /-- Padding. -/
  | free
  /-- Channel layout. -/
  | channelLayout
  /-- Information strings. -/
  | information
  /-- Instrument. -/
  | instrument
  /-- Setup data of an encoding. -/
  | magicCookie
  /-- Markers. -/
  | markers
  /-- Musical events. -/
  | midi
  /-- Overview of the samples. -/
  | overview
  /-- Packet table. -/
  | packetTable
  /-- Peak values. -/
  | peaks
  /-- Regions. -/
  | regions
  /-- Strings. -/
  | strings
  /-- Material identifier. -/
  | materialId
  /-- User-defined. -/
  | userDefined
  /-- Edit comments. -/
  | editComments
  /-- Any other code. -/
  | other (code : FourCC)
  deriving DecidableEq, Repr, Inhabited

namespace ChunkKind

/-- The known types with their codes. -/
def known : List (ChunkKind × FourCC) :=
  [(description, .ofChars 'd' 'e' 's' 'c'), (data, .ofChars 'd' 'a' 't' 'a'),
   (free, .ofChars 'f' 'r' 'e' 'e'), (channelLayout, .ofChars 'c' 'h' 'a' 'n'),
   (information, .ofChars 'i' 'n' 'f' 'o'), (instrument, .ofChars 'i' 'n' 's' 't'),
   (magicCookie, .ofChars 'k' 'u' 'k' 'i'), (markers, .ofChars 'm' 'a' 'r' 'k'),
   (midi, .ofChars 'm' 'i' 'd' 'i'), (overview, .ofChars 'o' 'v' 'v' 'w'),
   (packetTable, .ofChars 'p' 'a' 'k' 't'), (peaks, .ofChars 'p' 'e' 'a' 'k'),
   (regions, .ofChars 'r' 'e' 'g' 'n'), (strings, .ofChars 's' 't' 'r' 'g'),
   (materialId, .ofChars 'u' 'm' 'i' 'd'), (userDefined, .ofChars 'u' 'u' 'i' 'd'),
   (editComments, .ofChars 'e' 'd' 'c' 't')]

/-- The type that `code` names. -/
def ofCode (code : FourCC) : ChunkKind :=
  match known.find? (·.2 == code) with
  | some (kind, _) => kind
  | none => .other code

/-- The code of a type. -/
def code : ChunkKind → FourCC
  | .other code => code
  | kind =>
    match known.find? (·.1 == kind) with
    | some (_, code) => code
    | none => .ofChars '?' '?' '?' '?'

/-- Classifying the code `c` and taking the code of its type gives `c` back. -/
@[simp]
theorem code_ofCode (c : FourCC) : (ofCode c).code = c := by
  unfold ofCode
  split
  · rename_i kind c' h
    have hmem := List.mem_of_find?_eq_some h
    have hc : c' = c := by simpa using List.find?_some h
    subst hc
    revert hmem
    simp only [known, List.mem_cons, List.not_mem_nil, or_false, Prod.mk.injEq]
    rintro (⟨rfl, rfl⟩ | ⟨rfl, rfl⟩ | ⟨rfl, rfl⟩ | ⟨rfl, rfl⟩ | ⟨rfl, rfl⟩ | ⟨rfl, rfl⟩ |
      ⟨rfl, rfl⟩ | ⟨rfl, rfl⟩ | ⟨rfl, rfl⟩ | ⟨rfl, rfl⟩ | ⟨rfl, rfl⟩ | ⟨rfl, rfl⟩ |
      ⟨rfl, rfl⟩ | ⟨rfl, rfl⟩ | ⟨rfl, rfl⟩ | ⟨rfl, rfl⟩ | ⟨rfl, rfl⟩) <;> rfl
  · rfl

/-- A type is shown by its code. -/
def display (kind : ChunkKind) : String :=
  kind.code.display

end ChunkKind

/-- The eight bytes at the start of a container. -/
structure FileHeader where
  /-- What kind of file this is. -/
  marker : FourCC
  /-- Format version. -/
  version : UInt16
  /-- Format flags. -/
  flags : UInt16
  deriving DecidableEq, Repr

namespace FileHeader

/-- The header that is written. -/
def standard : FileHeader :=
  { marker := containerMarker, version := formatVersion, flags := 0 }

/-- The header as stored, `fileHeaderSize` bytes. -/
def toBytes (header : FileHeader) : Bytes :=
  header.marker.toBytes ++ Field.be16 header.version ++ Field.be16 header.flags

/-- Reads a file header from the front of `bytes`. -/
def read? (bytes : Bytes) : Option (FileHeader × Bytes) := do
  let (marker, bytes) ← FourCC.read? bytes
  let (version, bytes) ← Field.be16? bytes
  let (flags, bytes) ← Field.be16? bytes
  return ({ marker, version, flags }, bytes)

@[simp]
theorem length_toBytes (header : FileHeader) : header.toBytes.length = fileHeaderSize := by
  simp [toBytes, fileHeaderSize, Field.Word.width]

/-- A file header is read back, and nothing of `rest` is touched. -/
@[simp]
theorem read?_toBytes_append (header : FileHeader) (rest : Bytes) :
    read? (header.toBytes ++ rest) = some (header, rest) := by
  simp [read?, toBytes]

end FileHeader

/-- The type of a chunk and the size that it declares for its payload. -/
structure ChunkHeader where
  /-- Chunk type. -/
  kind : ChunkKind
  /-- Declared payload size; minus one stands for a data chunk that runs to the end of the file. -/
  size : Int64
  deriving DecidableEq, Repr

namespace ChunkHeader

/-- The header as stored, `chunkHeaderSize` bytes. -/
def toBytes (header : ChunkHeader) : Bytes :=
  header.kind.code.toBytes ++ Field.be64 header.size.toUInt64

/-- Reads a chunk header from the front of `bytes`. -/
def read? (bytes : Bytes) : Option (ChunkHeader × Bytes) := do
  let (code, bytes) ← FourCC.read? bytes
  let (size, bytes) ← Field.be64? bytes
  return ({ kind := ChunkKind.ofCode code, size := size.toInt64 }, bytes)

@[simp]
theorem length_toBytes (header : ChunkHeader) : header.toBytes.length = chunkHeaderSize := by
  simp [toBytes, chunkHeaderSize, Field.Word.width]

/-- A chunk header whose type comes from a code `c` is read back, and nothing of `rest` is touched.
-/
@[simp]
theorem read?_toBytes_append (c : FourCC) (size : Int64) (rest : Bytes) :
    read? (toBytes ⟨ChunkKind.ofCode c, size⟩ ++ rest) =
      some (⟨ChunkKind.ofCode c, size⟩, rest) := by
  simp [read?, toBytes]

end ChunkHeader

end Caf
