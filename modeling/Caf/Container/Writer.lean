import Caf.Container.Header
import Caf.Container.HeaderDraft
import Caf.Store.Writing

/-!
# Writing samples

A stream is written in two phases. Starting it writes a header that declares no samples, and the
samples follow; settling it measures the store and writes the same header with the length that was
found. The header has a fixed size, so the samples stay where they are. A writer whose header could
not be written is broken: it does nothing more.

The operations that callers know as `emit_provisional`, `finalize` and `mark_data_end` are
`Writer.writeHeader`, `Writer.settle` and `Writer.endSamples`: the first writes the header for what
is counted, the second for what the store holds, and the third says where the samples end.
-/

namespace Caf

/-- A stream that is being written, with the store it owns. -/
structure Writer where
  /-- Where the stream is written. -/
  store : Store
  /-- The state of the stream. -/
  stream : Stream
  /-- Where headers are put together. -/
  draft : HeaderDraft := .empty
  /-- What was recorded about the header. -/
  journal : Journal := .empty
  /-- Where the samples end, if something else may follow them. -/
  samplesEnd : Option Nat := none
  /-- The header is brought up to date after every write. -/
  eager : Bool := false
  /-- An earlier header write failed. -/
  broken : Bool := false

/-- An operation of a writer, which leaves a writer behind when it fails too. -/
abbrev WriterM := EStateM Error Writer

namespace Writer

/-- Where the samples that are written are. -/
def region (writer : Writer) : Region :=
  writer.stream.region

/-- The summary of the stream. -/
def summary (writer : Writer) : Stream.Summary :=
  writer.stream.summary

/-! ## Steps -/

/-- Does `operation` on the store of the writer. -/
def onStore {α : Type} (operation : StoreM α) : WriterM α := fun writer =>
  match Store.run operation writer.store with
  | .ok x store => .ok x { writer with store }
  | .error e store => .error e { writer with store }

/-- A broken writer does nothing, and says `Error.broken`. -/
def requireIntact : WriterM Unit := fun writer =>
  if writer.broken then .error .broken writer else .ok () writer

/-- Composes the header of the stream as it is. -/
def compose : WriterM Bytes := fun writer =>
  match writer.draft.compose writer.stream with
  | (.ok bytes, draft) => .ok bytes { writer with draft }
  | (.error e, draft) => .error e { writer with draft }

/-- Records that the samples start at `offset`. -/
def locate (offset : Nat) : WriterM Unit := fun writer =>
  match writer.stream.locate offset with
  | .ok stream => .ok () { writer with stream }
  | .error defect => .error (.defect defect) writer

/-- Sets the number of sample bytes to `length`. -/
def setLength (length : Nat) : WriterM Unit :=
  modify fun writer => { writer with stream := { writer.stream with length := length } }

/-- Writes the header of the stream as it is to the start of the store. The cursor goes back to
where it was, or to the first sample when it was inside the header. -/
def putHeader : WriterM Unit := do
  let resume ← onStore Store.position
  let header ← compose
  onStore (Store.seekTo 0)
  onStore (Store.writeAll header.toByteArray)
  locate header.length
  -- A writer that has just started stands at offset zero, inside the header.
  onStore (Store.seekTo (max resume header.length))

/-- Measures the store and writes the header with the length that was found. Samples end where
their end was set, if the store reaches that far. -/
def putMeasuredHeader : WriterM Unit := do
  onStore Store.flush
  let storeLength ← onStore Store.length
  let writer ← get
  let stop :=
    match writer.samplesEnd with
    | some mark => if mark < storeLength then mark else storeLength
    | none => storeLength
  -- A store that was cut off inside the header has no samples.
  setLength (stop - writer.region.offset)
  putHeader
  onStore Store.flush

/-- Does a header write that breaks the writer when it fails. -/
def breaking (operation : WriterM Unit) : WriterM Unit := fun writer =>
  match operation writer with
  | .ok () writer => .ok () writer
  | .error e writer => .error e { writer with broken := true }

/-! ## Operations -/

/-- Writes the header for the state of the stream as it is (`emit_provisional`). -/
def writeHeader : WriterM Unit := do
  requireIntact
  breaking putHeader

/-- Brings the header up to date with the length that the store has (`finalize`). A second time
changes nothing. -/
def settle : WriterM Unit := do
  requireIntact
  breaking putMeasuredHeader

/-- The same as `settle` (`update_header`). -/
def refresh : WriterM Unit :=
  settle

/-- Chooses whether the header is brought up to date after every write (`set_auto_update`). -/
def setEager (enabled : Bool) : WriterM Unit :=
  modify fun writer => { writer with eager := enabled }

/-- Writes `samples` at the cursor (`write_raw`). -/
def write (samples : ByteArray) : WriterM Unit := do
  requireIntact
  onStore (Store.writeAll samples)
  let stop ← onStore Store.position
  let writer ← get
  let written := stop - writer.region.offset
  -- Writing over samples that are there does not make the stream shorter.
  if writer.stream.length < written then
    setLength written
  if writer.eager then
    settle

/-- Takes the cursor as the end of the samples (`mark_data_end`): what is written behind it is
something else. -/
def endSamples : WriterM Nat := do
  let stop ← onStore Store.position
  modify fun writer => { writer with samplesEnd := some stop }
  return stop

/-- What a writer can be asked to do with its stream. -/
inductive Call where
  /-- Sample bytes are written. -/
  | write (samples : ByteArray)
  /-- The header is written for the state of the stream as it is (`emit_provisional`). -/
  | writeHeader
  /-- The header is written for what the store holds (`finalize`). -/
  | settle
  /-- The same as `settle`. -/
  | refresh
  /-- The header is brought up to date after every write, or no longer. -/
  | eager (enabled : Bool)
  /-- The samples end at the cursor (`mark_data_end`). -/
  | endSamples

/-- What a writer says when it has done what it was asked to do. -/
inductive Answer where
  /-- It is done. -/
  | done
  /-- It is done, and there is an offset to tell. -/
  | offset (offset : Nat)
  deriving DecidableEq, Repr

/-- Does what a call asks for. -/
def call : Call → WriterM Answer
  | .write samples => do write samples; return .done
  | .writeHeader => do writeHeader; return .done
  | .settle => do settle; return .done
  | .refresh => do refresh; return .done
  | .eager enabled => do setEager enabled; return .done
  | .endSamples => do return .offset (← endSamples)

/-- Ends the stream (`close`); what remains is the store. -/
def close (writer : Writer) : Except Error Unit × Store :=
  if writer.broken then (.error .broken, writer.store)
  else
    match settle writer with
    | .ok () writer => (.ok (), writer.store)
    | .error e writer => (.error e, writer.store)

/-- Lets go of the stream, as dropping it does. It is settled if it can be, and nobody learns
whether it could. -/
def release (writer : Writer) : Store :=
  writer.close.2

/-! ## Starting -/

/-- Records the header that was written. -/
def noteLayout (writer : Writer) : Writer :=
  match writer.draft.description with
  | none => writer
  | some description =>
    { writer with
      journal := (writer.journal.noteFileHeader .standard).noteDescription
        ⟨.description, Int64.ofNat descriptionSize⟩ description }

/-- A writer for `stream` in `store`, before anything is written. -/
def forStream (store : Store) (stream : Stream) (journal : Journal) : Writer :=
  { store, stream, journal }

/-- Checks that the store is empty and moves the cursor to its start. -/
def claimEmpty : CafM Unit := do
  let existing ← Store.run Store.length
  if existing ≠ 0 then
    throw (.badParameter (.storeNotEmpty existing))
  Store.run (Store.seekTo 0)

/-- Starts a new stream in an empty store (`create`). -/
def create (request : StreamRequest) : CafM Writer := fun store =>
  match Stream.requested request with
  | .error e => .error e store
  | .ok stream =>
    match claimEmpty store with
    | .error e store => .error e store
    | .ok () store =>
      match writeHeader (forStream store stream .empty) with
      | .error e writer => .error e writer.store
      | .ok () writer => .ok writer.noteLayout writer.store

/-- Continues the stream in a store behind its last sample (`append`). An empty store gets a new
stream, and otherwise `request` does not matter. The samples have to follow a header of the size
that is written here, so that the new header covers the old one. -/
def append (request : StreamRequest) : CafM Writer := fun store =>
  match Store.run Store.length store with
  | .error e store => .error e store
  | .ok 0 store => create request store
  | .ok _ store =>
    match Header.read { store, journal := .empty } with
    | .error e scan => .error e scan.store
    | .ok header scan =>
      let region := header.stream.region
      if region.offset ≠ headerSize then
        .error (.unsupported (.appendAt region.offset headerSize)) scan.store
      else
        match region.stop with
        | .error defect => .error (.defect defect) scan.store
        | .ok stop =>
          match Store.run (Store.seekTo stop) scan.store with
          | .error e store => .error e store
          | .ok () store =>
            match settle (forStream store header.stream scan.journal) with
            | .error e writer => .error e writer.store
            | .ok () writer => .ok writer writer.store

end Writer

end Caf
