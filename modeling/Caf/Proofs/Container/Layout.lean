import Caf.Container.Journal
import Caf.Proofs.Record.Parsing

/-!
# The layout of a container

What a container looks like, as bytes, and without a word on how it is read. A container is the
marker with version and flags, a description chunk, and a body: chunks that are passed over, the
header and the edit count of the data chunk, and the samples. The samples run to the end of the
bytes, whatever size the data chunk declares.

## Main definitions

* `Chunk`: a chunk whose payload has the length that it declares;
* `Layout.Body`: what follows the description chunk, up to the last byte;
* `Layout`: a container as a whole;
* `Layout.start`: the offset of the first sample.
-/

namespace Caf

/-- A chunk as a whole: a code, and a payload as long as the chunk declares. -/
structure Chunk where
  /-- The code of the chunk. -/
  code : FourCC
  /-- The payload. -/
  payload : Bytes
  /-- The length of the payload can be declared. -/
  length_lt : payload.length < 2 ^ 63

namespace Chunk

/-- The bytes of `chunk` as stored. -/
def toBytes (chunk : Chunk) : Bytes :=
  chunk.code.toBytes ++ Field.be64 (UInt64.ofNat chunk.payload.length) ++ chunk.payload

/-- The header of `chunk`. -/
def header (chunk : Chunk) : ChunkHeader :=
  { kind := .ofCode chunk.code, size := Int64.ofNat chunk.payload.length }

/-- Bytes of `chunk`, its header included. -/
def length (chunk : Chunk) : Nat :=
  chunkHeaderSize + chunk.payload.length

theorem toBytes_eq (chunk : Chunk) : chunk.toBytes = chunk.header.toBytes ++ chunk.payload := by
  simp [toBytes, header, ChunkHeader.toBytes]

@[simp]
theorem length_toBytes (chunk : Chunk) : chunk.toBytes.length = chunk.length := by
  simp [toBytes_eq, length]

/-- The size that `chunk` declares is the length of the payload. -/
@[simp]
theorem toInt_size (chunk : Chunk) : chunk.header.size.toInt = chunk.payload.length :=
  Int64.toInt_ofNat_of_lt chunk.length_lt

/-- Bytes of some chunks one behind the other. -/
def lengths : List Chunk → Nat
  | [] => 0
  | chunk :: chunks => chunk.length + lengths chunks

@[simp]
theorem length_flatMap_toBytes (chunks : List Chunk) :
    (chunks.flatMap toBytes).length = lengths chunks := by
  induction chunks with
  | nil => rfl
  | cons chunk chunks ih => rw [List.flatMap_cons, List.length_append, length_toBytes, ih, lengths]

end Chunk

/-- The code of the data chunk is the only `code` that names it. -/
theorem ChunkKind.ofCode_eq_data_iff {code : FourCC} :
    ChunkKind.ofCode code = .data ↔ code = ChunkKind.data.code := by
  constructor
  · intro h
    rw [← h, code_ofCode]
  · rintro rfl
    decide

/-- What follows the description chunk. -/
structure Layout.Body where
  /-- The chunks in front of the samples, which are passed over. -/
  passed : List Chunk
  /-- The size that the data chunk declares. It can be anything. -/
  declared : Int64
  /-- The edit count. -/
  edits : UInt32
  /-- The samples, up to the last byte. -/
  samples : Bytes
  /-- The first data chunk is the one with the samples. -/
  passed_ne : ∀ chunk ∈ passed, chunk.code ≠ ChunkKind.data.code

namespace Layout.Body

/-- The bytes of `body` as stored. -/
def toBytes (body : Body) : Bytes :=
  body.passed.flatMap Chunk.toBytes ++
    (ChunkKind.data.code.toBytes ++ Field.be64 body.declared.toUInt64 ++ Field.be32 body.edits) ++
    body.samples

/-- Bytes of `body` in front of the samples. -/
def lead (body : Body) : Nat :=
  Chunk.lengths body.passed + (chunkHeaderSize + editCountSize)

/-- What `journal` records about `body`. -/
def note (body : Body) (journal : Journal) : Journal :=
  ((body.passed.foldl (fun journal chunk => journal.notePassedChunk chunk.header) journal).noteChunk
    ⟨.data, body.declared⟩).noteEditCount body.edits

/-- The header of the data chunk as a record. -/
theorem toBytes_eq (body : Body) :
    body.toBytes = body.passed.flatMap Chunk.toBytes ++
      ((ChunkHeader.mk .data body.declared).toBytes ++
        (Field.be32 body.edits ++ body.samples)) := by
  simp only [toBytes, ChunkHeader.toBytes, List.append_assoc]

@[simp]
theorem length_toBytes (body : Body) : body.toBytes.length = body.lead + body.samples.length := by
  rw [toBytes_eq, List.length_append, Chunk.length_flatMap_toBytes, lead]
  simp only [List.length_append, ChunkHeader.length_toBytes, Field.length_be, editCountSize,
    Field.Word.width]
  omega

/-- A body has at least the header of the data chunk. -/
theorem toBytes_ne_nil (body : Body) : body.toBytes ≠ [] := by
  rw [← List.length_pos_iff, length_toBytes, lead, chunkHeaderSize]
  omega

/-- A chunk that is passed over makes a `longer` body of the one behind it. -/
theorem exists_cons {code : FourCC} {size : Int64} {rest : Bytes} {body : Body}
    (hkind : ChunkKind.ofCode code ≠ .data) (hsize : 0 ≤ size.toInt)
    (hbehind : rest.drop size.toInt.toNat = body.toBytes) :
    ∃ longer : Body, (ChunkHeader.mk (.ofCode code) size).toBytes ++ rest =
      longer.toBytes := by
  -- A body that starts behind the payload shows that the payload is there as a whole.
  obtain ⟨payload, rfl, hlong⟩ := Bytes.exists_append_of_drop hbehind body.toBytes_ne_nil
  have hdeclared : Int64.ofNat payload.length = size := by
    rw [hlong]
    exact Int64.ofNat_toNatClampNeg size (Int64.le_iff_toInt_le.2 hsize)
  have hpayload : payload.length < 2 ^ 63 := by
    have := size.toInt_lt
    omega
  have hpassed : ∀ chunk ∈ (⟨code, payload, hpayload⟩ :: body.passed : List Chunk),
      chunk.code ≠ ChunkKind.data.code := by
    rintro other (_ | ⟨_, hmem⟩)
    · exact fun h => hkind (ChunkKind.ofCode_eq_data_iff.2 h)
    · exact body.passed_ne other hmem
  refine ⟨⟨_, body.declared, body.edits, body.samples, hpassed⟩, ?_⟩
  rw [toBytes_eq body, toBytes_eq, List.flatMap_cons, Chunk.toBytes_eq,
    Chunk.header, hdeclared]
  simp only [List.append_assoc]

end Layout.Body

/-- A container: the bytes of a file that can be opened, if its description makes sense. -/
structure Layout where
  /-- Format version. -/
  version : UInt16
  /-- Format flags. -/
  flags : UInt16
  /-- The description record. -/
  description : Description
  /-- What the description chunk has behind the record. -/
  surplus : Bytes
  /-- What follows the description chunk. -/
  body : Layout.Body
  /-- The length of the description chunk can be declared. -/
  length_lt : descriptionSize + surplus.length < 2 ^ 63

namespace Layout

/-- The bytes of the container `l` as stored. -/
def toBytes (l : Layout) : Bytes :=
  containerMarker.toBytes ++ (Field.be16 l.version ++ Field.be16 l.flags) ++
    (ChunkKind.description.code.toBytes ++
      Field.be64 (UInt64.ofNat (descriptionSize + l.surplus.length)) ++
      l.description.toBytes ++ l.surplus) ++
    l.body.toBytes

/-- The file header. -/
def fileHeader (l : Layout) : FileHeader :=
  { marker := containerMarker, version := l.version, flags := l.flags }

/-- The header of the description chunk. -/
def descriptionHeader (l : Layout) : ChunkHeader :=
  { kind := .description, size := Int64.ofNat (descriptionSize + l.surplus.length) }

/-- The offset of the body. -/
def bodyStart (l : Layout) : Nat :=
  fileHeaderSize + chunkHeaderSize + (descriptionSize + l.surplus.length)

/-- The offset of the first sample. -/
def start (l : Layout) : Nat :=
  l.bodyStart + l.body.lead

/-- What a journal records about the header. -/
def journal (l : Layout) : Journal :=
  (l.body.note ((Journal.empty.noteFileHeader l.fileHeader).noteDescription l.descriptionHeader
    l.description)).remark "End"

/-- The container as a sequence of records. -/
theorem toBytes_eq (l : Layout) :
    l.toBytes = l.fileHeader.toBytes ++
      (l.descriptionHeader.toBytes ++
        (l.description.toBytes ++ (l.surplus ++ l.body.toBytes))) := by
  simp [toBytes, fileHeader, descriptionHeader, FileHeader.toBytes, ChunkHeader.toBytes]

/-- The samples of `l` run to the end. -/
@[simp]
theorem length_toBytes (l : Layout) : l.toBytes.length = l.start + l.body.samples.length := by
  rw [toBytes_eq]
  simp only [List.length_append, FileHeader.length_toBytes, ChunkHeader.length_toBytes,
    Description.length_toBytes, Body.length_toBytes, start, bodyStart]
  omega

/-- The declared size of the description chunk is its length. -/
theorem toInt_descriptionHeader_size (l : Layout) :
    l.descriptionHeader.size.toInt = (descriptionSize + l.surplus.length : Nat) :=
  Int64.toInt_ofNat_of_lt l.length_lt

/-- The body stands at `l.bodyStart`. -/
theorem drop_bodyStart (l : Layout) : l.toBytes.drop l.bodyStart = l.body.toBytes := by
  have hlead : l.bodyStart = (l.fileHeader.toBytes ++ (l.descriptionHeader.toBytes ++
      (l.description.toBytes ++ l.surplus))).length := by
    simp only [List.length_append, FileHeader.length_toBytes, ChunkHeader.length_toBytes,
      Description.length_toBytes, bodyStart]
    omega
  have hsplit : l.toBytes = (l.fileHeader.toBytes ++ (l.descriptionHeader.toBytes ++
      (l.description.toBytes ++ l.surplus))) ++ l.body.toBytes := by
    simp only [toBytes_eq, List.append_assoc]
  rw [hsplit, hlead, List.drop_left]

/-- A `body` that stands behind what a description chunk declares makes a container: what the chunk
declares is there as a whole. -/
theorem exists_of_records {bytes tail : Bytes} {header : FileHeader} {dheader : ChunkHeader}
    {d : Description} {body : Body} (hmarker : header.marker = containerMarker)
    (hkind : dheader.kind = .description) (hlarge : (descriptionSize : Int) ≤ dheader.size.toInt)
    (hbytes : bytes = header.toBytes ++ (dheader.toBytes ++ (d.toBytes ++ tail)))
    (hbody : tail.drop (dheader.size.toInt.toNat - descriptionSize) = body.toBytes) :
    ∃ l : Layout, bytes = l.toBytes := by
  -- The body is not empty, so that all of the surplus is there in front of it.
  obtain ⟨surplus, rfl, hsurplus⟩ := Bytes.exists_append_of_drop hbody body.toBytes_ne_nil
  have hlength : descriptionSize + surplus.length = dheader.size.toInt.toNat := by
    omega
  have hlast := dheader.size.toInt_lt
  let l : Layout := ⟨header.version, header.flags, d, surplus, body, by omega⟩
  have hheader : l.fileHeader = header := by
    rw [fileHeader, ← hmarker]
  have hdheader : l.descriptionHeader = dheader := by
    have hsize : Int64.ofNat (descriptionSize + surplus.length) = dheader.size := by
      rw [hlength]
      exact Int64.ofNat_toNatClampNeg dheader.size (Int64.le_iff_toInt_le.2
        (Int.le_trans (by decide) hlarge))
    show ChunkHeader.mk .description (Int64.ofNat (descriptionSize + surplus.length)) = dheader
    rw [hsize, ← hkind]
  exact ⟨l, by rw [hbytes, toBytes_eq, hheader, hdheader]⟩

/-- The samples stand at `l.start`. -/
theorem drop_start (l : Layout) : l.toBytes.drop l.start = l.body.samples := by
  have hlead : l.toBytes.length - l.body.samples.length = l.start := by
    rw [length_toBytes, Nat.add_sub_cancel]
  have hsuffix : l.body.samples <:+ l.toBytes := by
    rw [toBytes_eq, Body.toBytes_eq]
    simp only [← List.append_assoc]
    exact List.suffix_append ..
  rw [← hlead, ← List.suffix_iff_eq_drop.1 hsuffix]

end Layout

/-! ## What is recorded about a container -/

namespace Journal

variable (journal : Journal)

@[simp]
theorem warned_empty : empty.warned = false := by
  simp [warned, empty]

/-- A plain line is no warning. -/
@[simp]
theorem warned_remark (line : String) : (journal.remark line).warned = journal.warned := by
  simp [warned, remark]

@[simp]
theorem warned_noteFileHeader (header : FileHeader) :
    (journal.noteFileHeader header).warned = journal.warned := by
  simp [noteFileHeader]

@[simp]
theorem warned_noteChunk (header : ChunkHeader) :
    (journal.noteChunk header).warned = journal.warned := by
  simp [noteChunk]

@[simp]
theorem warned_notePassedChunk (header : ChunkHeader) :
    (journal.notePassedChunk header).warned = journal.warned := by
  simp [notePassedChunk]

@[simp]
theorem warned_noteDescription (header : ChunkHeader) (d : Description) :
    (journal.noteDescription header d).warned = journal.warned := by
  simp [noteDescription]

@[simp]
theorem warned_noteEditCount (count : UInt32) :
    (journal.noteEditCount count).warned = journal.warned := by
  simp [noteEditCount]

end Journal

namespace Layout

/-- Recording a body warns of nothing. -/
@[simp]
theorem Body.warned_note (body : Body) (journal : Journal) :
    (body.note journal).warned = journal.warned := by
  rw [Body.note, Journal.warned_noteEditCount, Journal.warned_noteChunk]
  induction body.passed generalizing journal with
  | nil => rfl
  | cons chunk passed ih => rw [List.foldl_cons, ih, Journal.warned_notePassedChunk]

/-- Recording a container warns of nothing. -/
theorem warned_journal (l : Layout) : l.journal.warned = false := by
  simp [journal]

end Layout

end Caf
