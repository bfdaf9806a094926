import Caf.Container.Header

/-!
# Listing the chunks of a container

The listing names every chunk behind the file header with its type, its offset and the size that it
declares, chunks behind the samples included. It ends where no further chunk header fits into the
file, and with a data chunk that runs to the end of the file.
-/

namespace Caf

/-- A chunk of a listing. -/
structure ChunkList.Entry where
  /-- Chunk type. -/
  kind : ChunkKind
  /-- Offset of the chunk's header. -/
  offset : Nat
  /-- Declared payload size. -/
  size : Int64
  deriving DecidableEq, Repr

namespace ChunkList.Entry

/-- Offset of the payload of `entry`, which has to fit sixty-four bits. -/
def payloadStart (entry : Entry) : Except Defect Nat :=
  addWithin 64 entry.offset chunkHeaderSize

/-- A data chunk without a declared end: its samples run to the end of the file. -/
def isOpenEnded (entry : Entry) : Bool :=
  entry.kind == .data && entry.size == -1

end ChunkList.Entry

namespace ChunkList

/-- Whether a chunk header at `offset` fits into a file of `fileLength` bytes. -/
def fits (fileLength offset : Nat) : Except Error Bool :=
  match addWithin 64 offset chunkHeaderSize with
  | .ok stop => .ok (stop ≤ fileLength)
  | .error defect => .error (.defect defect)

/-- A header that fits ends within the file. -/
theorem fits_ok {fileLength offset : Nat} (h : fits fileLength offset = .ok true) :
    offset + chunkHeaderSize ≤ fileLength := by
  unfold fits addWithin at h
  split at h
  · rename_i hadd
    split at hadd
    · cases hadd
      simpa using h
    · cases hadd
  · cases h

/-- The offset behind a chunk of `size` bytes at `offset`, for a size that is not negative. -/
def nextOffset (offset : Nat) (size : Int64) : Except Error Nat :=
  match addWithin 64 offset (chunkHeaderSize + size.toInt.toNat) with
  | .ok next => .ok next
  | .error _ => .error (.malformedAt .sizeOverflow offset)

/-- The next chunk starts behind the header of this one, so that `walk` gets on. -/
theorem nextOffset_ok {offset next : Nat} {size : Int64} (h : nextOffset offset size = .ok next) :
    offset + chunkHeaderSize ≤ next := by
  unfold nextOffset addWithin at h
  split at h
  · rename_i hadd
    split at hadd
    · cases hadd
      cases h
      omega
    · cases hadd
  · cases h

/-- Reads the header of the chunk at `offset`, which is where the cursor is. -/
def readEntry (offset : Nat) : CafM Entry := do
  let header ← Store.record .chunkHeader offset chunkHeaderSize ChunkHeader.read?
  return { kind := header.kind, offset, size := header.size }

/-- The chunks from `offset` on, which is where the cursor is, of a file of `fileLength` bytes. -/
def walk (fileLength offset : Nat) (store : Store) :
    EStateM.Result Error Store (List Entry) :=
  match _hfits : fits fileLength offset with
  | .error e => .error e store
  | .ok false => .ok [] store
  | .ok true =>
    match readEntry offset store with
    | .error e store => .error e store
    | .ok entry store =>
      -- Nothing can follow samples that run to the end of the file.
      if entry.isOpenEnded then .ok [entry] store
      else
        match Header.passPayload ⟨entry.kind, entry.size⟩ offset store with
        | .error e store => .error e store
        | .ok () store =>
          match _hnext : nextOffset offset entry.size with
          | .error e => .error e store
          | .ok next =>
            match walk fileLength next store with
            | .error e store => .error e store
            | .ok entries store => .ok (entry :: entries) store
termination_by fileLength - offset
decreasing_by
  have hfits := fits_ok _hfits
  have hnext := nextOffset_ok _hnext
  simp only [chunkHeaderSize] at hfits hnext
  omega

/-- Lists every chunk of the container in a store (`list_chunks`). -/
def read : CafM (List Entry) := do
  let fileLength ← Store.run Store.length
  Store.run (Store.seekTo 0)
  let fileHeader ← Header.readFileHeader
  Header.requireMarker fileHeader
  walk fileLength fileHeaderSize

end ChunkList

end Caf
