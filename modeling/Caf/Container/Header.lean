import Caf.Container.Journal
import Caf.Run
import Caf.Sample.Stream
import Caf.Store.Operation

/-!
# Reading a container header

The header of a container runs from its first byte to its first sample: the file header, the
description chunk, any number of chunks that are passed over, and the header of the data chunk with
its edit count. `Header.read` reads it, records what it sees in a journal, and leaves the cursor at
the first sample. The description is judged only after the data chunk has been found.
-/

namespace Caf

/-- A store whose header is being read, and what was recorded so far. -/
structure Scan where
  /-- The store. -/
  store : Store
  /-- The journal of this header. -/
  journal : Journal

/-- A step of reading a header. Its journal is kept when it fails. -/
abbrev ScanM := EStateM Error Scan

namespace Scan

/-- Does `operation` on the store and records nothing. -/
def onStore {α : Type} (operation : CafM α) : ScanM α := fun scan =>
  match operation scan.store with
  | .ok x store => .ok x { scan with store }
  | .error e store => .error e { scan with store }

/-- Records `entry`. -/
def note (entry : Journal → Journal) : ScanM Unit := fun scan =>
  .ok () { scan with journal := entry scan.journal }

/-- Success of `operation` moves the store and keeps the journal. -/
theorem onStore_ok {α : Type} {operation : CafM α} {scan scan' : Scan} {x : α}
    (h : onStore operation scan = .ok x scan') :
    operation scan.store = .ok x scan'.store ∧ scan'.journal = scan.journal := by
  unfold onStore at h
  split at h
  · rename_i hop
    obtain ⟨rfl, rfl⟩ := h
    exact ⟨hop, rfl⟩
  · cases h

end Scan

namespace Header

/-- Reads the file header at the cursor. -/
def readFileHeader : CafM FileHeader :=
  Store.record .fileHeader 0 fileHeaderSize FileHeader.read?

/-- Refuses a file whose `header` has another marker than `containerMarker`. -/
def requireMarker {σ : Type} (header : FileHeader) : EStateM Error σ Unit :=
  if header.marker = containerMarker then pure ()
  else throw (.malformedAt (.notCaf header.marker) 0)

/-- Reads the file header of a container. It is recorded before its marker is judged, so that the
journal shows one that is refused. -/
def readMarked : ScanM FileHeader := do
  let fileHeader ← Scan.onStore readFileHeader
  Scan.note (·.noteFileHeader fileHeader)
  requireMarker fileHeader
  return fileHeader

/-- Passes over the payload of a chunk that starts at `offset`. The payload need not be there: the
cursor may come to stand behind the last byte. -/
def passPayload (header : ChunkHeader) (offset : Nat) : CafM Unit :=
  if header.size < 0 then
    throw (.malformedAt (.negativeSize header.kind header.size) offset)
  else
    Store.run (Store.seekBy header.size.toInt.toNat)

/-- Reads the description chunk that has to follow the file header. What the chunk has in addition
to the record is passed over. -/
def readDescription : ScanM Description := do
  let position ← Scan.onStore (Store.run Store.position)
  let header ← Scan.onStore
    (Store.record .descriptionHeader position chunkHeaderSize ChunkHeader.read?)
  if header.kind ≠ .description then
    throw (.malformedAt (.descriptionExpected header.kind) position)
  if header.size.toInt < descriptionSize then
    Scan.note (·.warn
      ("Chunk size too small. Should be > " ++ toString descriptionSize ++ " bytes."))
    throw (.malformedAt (.descriptionTooSmall header.size) position)
  let description ← Scan.onStore
    (Store.record .description (position + chunkHeaderSize) descriptionSize Description.read?)
  Scan.note (·.noteDescription header description)
  -- Later versions of the container may append fields to the record.
  let surplus := (header.size.toInt - descriptionSize).toNat
  if surplus ≠ 0 then
    Scan.onStore (Store.run (Store.seekBy surplus))
  return description

/-- Takes the data chunk at `position` whose `header` has been read: its edit count, and the offset
of its first sample. -/
def enterData (header : ChunkHeader) (position : Nat) : ScanM Nat := do
  Scan.note (·.noteChunk header)
  let count ← Scan.onStore (Store.record .editCount position editCountSize Field.be32?)
  Scan.note (·.noteEditCount count)
  Scan.onStore (Store.run Store.position)

/-- Passes over the chunk at `position` whose `header` has been read. -/
def passOver (header : ChunkHeader) (position : Nat) : ScanM Unit := do
  Scan.note (·.notePassedChunk header)
  Scan.onStore (passPayload header position)

/-- Reads the header of the next chunk, which starts at the cursor, of a file that ends at
`fileLength`. -/
def nextChunk (fileLength : Nat) : ScanM (ChunkHeader × Nat) := do
  let position ← Scan.onStore (Store.run Store.position)
  if fileLength < position + chunkHeaderSize then
    Scan.note (·.warn "Error, could not find 'data' chunk.")
    throw (.malformedAt .noDataChunk position)
  let header ← Scan.onStore
    (Store.record .chunkHeader position chunkHeaderSize ChunkHeader.read?)
  return (header, position)

/-- Reading the header of a chunk moves the cursor on within the bytes of the store, so that
`findData` gets on. -/
theorem nextChunk_ok {fileLength position : Nat} {header : ChunkHeader} {scan scan' : Scan}
    (h : nextChunk fileLength scan = .ok (header, position) scan') :
    scan'.store.bytes = scan.store.bytes ∧
      scan'.store.cursor = scan.store.cursor + chunkHeaderSize ∧
      chunkHeaderSize ≤ scan.store.bytes.size - scan.store.cursor := by
  obtain ⟨here, scan₁, hposition, h⟩ := Run.bind_eq_ok_iff.1 h
  have hp := Store.position_ok (Store.explaining_ok (Scan.onStore_ok hposition).1)
  split at h
  · obtain ⟨-, scan₂, -, h⟩ := Run.bind_eq_ok_iff.1 h
    exact absurd h Run.throw_ne_ok
  · obtain ⟨header₁, scan₂, hheader, h⟩ := Run.bind_eq_ok_iff.1 h
    obtain ⟨-, rfl⟩ := Run.pure_eq_ok_iff.1 h
    have hr := Store.record_ok (Scan.onStore_ok hheader).1
    rw [hp.2] at hr
    exact hr

/-- Passing over a chunk of the given `header` does not move the cursor back. -/
theorem passOver_ok {position : Nat} {header : ChunkHeader} {scan scan' : Scan}
    (h : passOver header position scan = .ok () scan') :
    scan'.store.bytes = scan.store.bytes ∧ scan.store.cursor ≤ scan'.store.cursor := by
  unfold passOver at h
  simp only [bind, EStateM.bind, Scan.note] at h
  have hs := (Scan.onStore_ok h).1
  unfold passPayload at hs
  split at hs
  · cases hs
  · have hk := Store.seekBy_ok (Store.explaining_ok hs)
    exact ⟨hk.1, by rw [hk.2]; exact Nat.le_add_right ..⟩

/-- Reads chunk after chunk until the data chunk, and gives the offset of its first sample. -/
def findData (fileLength : Nat) (scan : Scan) : EStateM.Result Error Scan Nat :=
  match _hnext : nextChunk fileLength scan with
  | .error e scan' => .error e scan'
  | .ok (header, position) scan' =>
    if header.kind = .data then enterData header position scan'
    else
      match _hpass : passOver header position scan' with
      | .error e scan'' => .error e scan''
      | .ok () scan'' => findData fileLength scan''
termination_by scan.store.bytes.size - scan.store.cursor
decreasing_by
  have hn := nextChunk_ok _hnext
  have hp := passOver_ok _hpass
  rw [hp.1, hn.1]
  simp only [chunkHeaderSize] at hn
  omega

/-- Reads the chunks behind the file header: the description, and all others up to the first sample,
which starts at the offset that is given back. -/
def readChunks (fileLength : Nat) : ScanM (Description × Nat) := do
  let description ← readDescription
  let start ← findData fileLength
  Scan.note (·.remark "End")
  return (description, start)

/-- The rate that a record declares, as a whole number: the one nearest to `rate`, a half going up.
It has to be positive and fit thirty-two bits. -/
def wholeRate? (rate : Binary64) : Option UInt32 :=
  match rate.value with
  | .nan => none
  | .infinite _ => none
  | .finite true _ _ => none
  | .finite false mantissa exponent =>
    let rounded := Binary64.roundToNat mantissa exponent
    if 1 ≤ rounded ∧ rounded < 2 ^ 32 then some (UInt32.ofNat rounded) else none

/-- The stream that `description` makes with samples from `start` up to `fileLength`. -/
def streamOf (description : Description) (start fileLength : Nat) : ScanM Stream := do
  match wholeRate? description.sampleRate with
  | none => throw (.malformed (.invalidSampleRate description.sampleRate) none)
  | some sampleRate =>
    if description.channelsPerFrame = 0 then
      throw (.malformed .zeroChannels none)
    -- The rules may leave a warning, also when no encoding is found.
    let scan ← get
    let (encoding?, journal) := scan.journal.judge description
    set { scan with journal }
    match encoding? with
    | none =>
      throw (.unsupported (.description description.formatId description.formatFlags
        description.bitsPerChannel description.bytesPerPacket))
    | some encoding =>
      return {
        sampleRate
        channels := description.channelsPerFrame
        encoding
        order := description.byteOrder
        start := some start
        length := fileLength - start }

end Header

/-- What the header of a container says. -/
structure Header where
  /-- The file header. -/
  fileHeader : FileHeader
  /-- The description record. -/
  description : Description
  /-- The stream, with the place of its samples. -/
  stream : Stream
  deriving DecidableEq, Repr

namespace Header

/-- Reads the parts of a header one after the other, from the cursor on, of a file that ends at
`fileLength`. -/
def readParts (fileLength : Nat) : ScanM Header := do
  let fileHeader ← readMarked
  let (description, start) ← readChunks fileLength
  let stream ← streamOf description start fileLength
  return { fileHeader, description, stream }

/-- Reads the header of the container in a store and leaves the cursor at the first sample. -/
def read : ScanM Header := do
  let fileLength ← Scan.onStore (Store.run Store.length)
  Scan.onStore (Store.run (Store.seekTo 0))
  readParts fileLength

/-- Reads the header of the container in `store` for its journal and its summary (`inspect_header`).
The journal tells how far reading got when it fails. -/
def survey (store : Store) : (Journal × Except Error Stream.Summary) × Store :=
  match read { store, journal := .empty } with
  | .ok header scan => ((scan.journal, .ok header.stream.summary), scan.store)
  | .error e scan => ((scan.journal, .error e), scan.store)

end Header

end Caf
