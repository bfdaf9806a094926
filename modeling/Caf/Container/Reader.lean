import Caf.Blake3
import Caf.Container.Header

/-!
# Reading samples

A reader is an opened container: what its header said, and the region of the samples. It is a value
that no operation changes; the operations work on the store, whose cursor they keep within the
region. `Reader.read` (`read_raw`) hands out sample bytes from the cursor on and never leaves the
region, `Reader.goToFrame` and `Reader.currentFrame` (`seek_frame`, `frame_position`) convert
between frames and cursor, and `Reader.digest` (`data_hash`) covers the whole region.
-/

namespace Caf

/-- An opened container. -/
structure Reader where
  /-- What the header said. -/
  header : Header
  /-- Where the samples are. -/
  region : Region
  /-- What was recorded while the header was read. -/
  journal : Journal

namespace Reader

/-- Opens the container in a store; the cursor comes to stand at the first sample. -/
def ofStore : CafM Reader := fun store =>
  match Header.read { store, journal := .empty } with
  | .ok header scan =>
    .ok { header, region := header.stream.region, journal := scan.journal } scan.store
  | .error e scan => .error e scan.store

/-- The state of the stream. -/
def stream (reader : Reader) : Stream :=
  reader.header.stream

/-- The summary of the stream. -/
def summary (reader : Reader) : Stream.Summary :=
  reader.stream.summary

/-- The value of a computation that may run out of its range, which is a defect then. -/
def checked {σ α : Type} : Except Defect α → EStateM Error σ α
  | .ok x => pure x
  | .error defect => throw (.defect defect)

/-- Moves a cursor that stands in front of the region to its start, and tells where it is then. -/
def enterRegion (reader : Reader) : CafM Nat := do
  let position ← Store.run Store.position
  if position < reader.region.offset then
    Store.run (Store.seekTo reader.region.offset)
    return reader.region.offset
  else
    return position

/-- Reads up to `want` bytes of the region from the cursor on (`read_raw`). No bytes mean that the
region, or what is left of it, has ended. -/
def read (reader : Reader) (want : Nat) : CafM ByteArray := do
  let position ← reader.enterRegion
  let stop ← checked reader.region.stop
  Store.run (Store.fill (min want (stop - position)))

/-- Moves the cursor to the start of `frame`, or behind the last one (`seek_frame`). -/
def goToFrame (reader : Reader) (frame : Nat) : CafM Nat := do
  let frames := reader.stream.frames
  if frames < frame then
    throw (.badParameter (.frameBeyondEnd frame frames))
  let distance ← checked (multiplyWithin 64 frame reader.stream.bytesPerFrame)
  let offset ← checked (addWithin 64 reader.region.offset distance)
  Store.run (Store.seekTo offset)
  return frame

/-- The frame in which the cursor is (`frame_position`). -/
def currentFrame (reader : Reader) : CafM Nat := do
  let position ← Store.run Store.position
  if reader.stream.bytesPerFrame = 0 then
    throw (.defect .divideByZero)
  return (position - reader.region.offset) / reader.stream.bytesPerFrame

/-- The digest of the region (`data_hash`). When the region is read to its end the cursor goes back
to where it was. -/
def digest (reader : Reader) : CafM String := do
  let position ← Store.run Store.position
  Store.run (Store.seekTo reader.region.offset)
  let samples ← Store.run (Store.fill reader.region.length)
  Store.run (Store.seekTo position)
  -- The region was measured when the container was opened; bytes may have gone since.
  if samples.size ≠ reader.region.length then
    let offset ← checked (addWithin 64 reader.region.offset samples.size)
    throw (.malformedAt .regionCutShort offset)
  return Blake3.digest samples

/-- What a reader can be asked for. -/
inductive Call where
  /-- Sample bytes from the cursor on, up to a number of them. -/
  | read (want : Nat)
  /-- The cursor at the start of a frame. -/
  | goToFrame (frame : Nat)
  /-- The frame in which the cursor is. -/
  | currentFrame
  /-- The digest of the samples. -/
  | digest

/-- What a reader says. -/
inductive Answer where
  /-- Sample bytes. -/
  | samples (bytes : ByteArray)
  /-- A frame. -/
  | frame (frame : Nat)
  /-- A digest. -/
  | digest (digest : String)

/-- Does what a call asks for. -/
def call (reader : Reader) : Call → CafM Answer
  | .read want => return .samples (← reader.read want)
  | .goToFrame frame => return .frame (← reader.goToFrame frame)
  | .currentFrame => return .frame (← reader.currentFrame)
  | .digest => return .digest (← reader.digest)

end Reader

end Caf
