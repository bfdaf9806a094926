import Caf.Sample.Stream

/-!
# The header that is written

A stream that is written starts with a header of fixed size: file header, description chunk, and the
header and edit count of the data chunk. `headerBytes` is that header for a description and a
declared size, and `headerReads_append` reads each part of it back. A draft holds the header that
was composed last.
-/

namespace Caf

/-- The header in front of the samples, for `description` and the size that the data chunk declares.
-/
def headerBytes (description : Description) (dataSize : Int64) : Bytes :=
  FileHeader.standard.toBytes ++
    (ChunkHeader.mk .description (Int64.ofNat descriptionSize)).toBytes ++ description.toBytes ++
    (ChunkHeader.mk .data dataSize).toBytes ++ Field.be32 editCount

/-- Every header takes `headerSize` bytes, so writing one over another never moves the samples. -/
@[simp]
theorem length_headerBytes (description : Description) (dataSize : Int64) :
    (headerBytes description dataSize).length = headerSize := by
  simp [headerBytes, headerSize, fileHeaderSize, chunkHeaderSize, descriptionSize, editCountSize,
    Field.Word.width]

/-- Reading `content` part by part finds a header that is written here, for the description `d` and
the size `declared`, and `rest` behind it. -/
structure HeaderReads (content : Bytes) (d : Description) (declared : Int64) (rest : Bytes) :
    Prop where
  /-- The container is marked `caff`, and has version 1 and no flags. -/
  fileHeader : FileHeader.read? content = some (⟨.ofChars 'c' 'a' 'f' 'f', 1, 0⟩, content.drop 8)
  /-- The first chunk is the description, which has the size of its record. -/
  descriptionHeader :
    ChunkHeader.read? (content.drop 8) = some (⟨.description, 32⟩, content.drop 20)
  /-- The record is `d`. -/
  description : Description.read? (content.drop 20) = some (d, content.drop 52)
  /-- The second chunk is the data chunk, which declares `declared` bytes. -/
  dataHeader : ChunkHeader.read? (content.drop 52) = some (⟨.data, declared⟩, content.drop 64)
  /-- The edit count is 1. -/
  editCount : Field.be32? (content.drop 64) = some (1, content.drop 68)
  /-- Behind the header stands `rest`. -/
  behind : content.drop 68 = rest

/-- Every part of `headerBytes d declared` is read back, whatever stands behind it. -/
theorem headerReads_append (d : Description) (declared : Int64) (rest : Bytes) :
    HeaderReads (headerBytes d declared ++ rest) d declared rest := by
  have h0 : (headerBytes d declared ++ rest).drop 0 = FileHeader.standard.toBytes ++
      ((ChunkHeader.mk .description 32).toBytes ++ (d.toBytes ++
        ((ChunkHeader.mk .data declared).toBytes ++ (Field.be32 1 ++ rest)))) := by
    simp only [headerBytes, List.append_assoc, List.drop_zero]
    rfl
  generalize headerBytes d declared ++ rest = content at h0 ⊢
  -- Each part starts where the one in front of it ends.
  have h8 : content.drop 8 = _ := Bytes.drop_add_of_append h0 (FileHeader.length_toBytes _)
  have h20 : content.drop 20 = _ := Bytes.drop_add_of_append h8 (ChunkHeader.length_toBytes _)
  have h52 : content.drop 52 = _ := Bytes.drop_add_of_append h20 d.length_toBytes
  have h64 : content.drop 64 = _ := Bytes.drop_add_of_append h52 (ChunkHeader.length_toBytes _)
  have h68 : content.drop 68 = rest := Bytes.drop_add_of_append h64 (Field.length_be _)
  constructor
  · rw [h8, ← List.drop_zero (l := content), h0]
    exact FileHeader.read?_toBytes_append .standard _
  · rw [h8, h20]
    exact ChunkHeader.read?_toBytes_append (.ofChars 'd' 'e' 's' 'c') 32 _
  · rw [h20, h52]
    exact Description.read?_toBytes_append d _
  · rw [h52, h64]
    exact ChunkHeader.read?_toBytes_append (.ofChars 'd' 'a' 't' 'a') declared _
  · rw [h64, h68]
    exact Field.be?_append 1 rest
  · exact h68

/-- The record that describes `stream`. -/
def Stream.describe (stream : Stream) : Except Defect Description :=
  Description.ofEncoding stream.encoding stream.channels stream.order stream.rateField

/-- Where a header is put together before it is written. -/
structure HeaderDraft where
  /-- The bytes of the header. -/
  bytes : Bytes
  /-- The description in the header that was composed last. -/
  description : Option Description
  deriving DecidableEq, Repr

namespace HeaderDraft

/-- A draft that has not been used. -/
def empty : HeaderDraft := ⟨[], none⟩

/-- Composes the header of `stream` (`assemble`). A stream that is too long for a data chunk is
refused; the old bytes of `draft` are gone then. -/
def compose (draft : HeaderDraft) (stream : Stream) : Except Error Bytes × HeaderDraft :=
  match stream.describe with
  | .error defect => (.error (.defect defect), { draft with bytes := [] })
  | .ok description =>
    if stream.length < 2 ^ 63 then
      let bytes := headerBytes description (Int64.ofNat stream.length)
      (.ok bytes, { bytes, description := some description })
    else (.error (.badParameter .dataTooLong), { draft with bytes := [] })

end HeaderDraft

end Caf
