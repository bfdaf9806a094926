import Caf.Proofs.Container.Breaking
import Caf.Proofs.Container.Confining

/-!
# What every writer is founded on

A stream that is written has its samples behind a header of the usual size, and a description whose
fields are large enough. Starting a stream establishes this and so does continuing one; no call
takes it away, whether it succeeds or fails, and what happens to the store in between cannot touch
it. So it is true of every writer that there can ever be. The same goes for whatever else is true of
the streams that are started and of those that are continued, and lasts while a stream is written.

## Main definitions

* `Stream.Lasting`: what a stream keeps while it is written;
* `Stream.Founded`: the samples start behind the header, and the size of a frame fits its field;
* `Writer.Underway`: a writer that has been started, whatever has happened to it since.

## Main results

* `Writer.preserves_call`: what one call preserves;
* `Writer.Underway.of_lasting`: what is true of every writer;
* `Writer.Underway.founded`: every writer is founded.
-/

namespace Caf

/-- What `P` says of a stream is still true when samples have been counted, and when the place of
the samples has been recorded. -/
structure Stream.Lasting (P : Stream → Prop) : Prop where
  /-- The length does not matter. -/
  withLength : ∀ stream length, P stream → P { stream with length }
  /-- The place does not matter, or it is the right one. -/
  located : ∀ stream stream' offset, P stream → stream.locate offset = .ok stream' → P stream'

/-- A stream with its samples behind a header of the usual size. -/
structure Stream.Founded (stream : Stream) : Prop where
  /-- The size of a frame fits the field for it. -/
  frame : stream.bytesPerFrame < 2 ^ 32
  /-- The samples start behind the header. -/
  start : stream.start = some headerSize

namespace Stream

variable {stream stream' : Stream} {offset : Nat}

/-- A stream that knows its place is not moved by `locate`. -/
theorem eq_of_locate {known : Nat} (hknown : stream.start = some known)
    (h : stream.locate offset = .ok stream') : stream' = stream := by
  unfold locate at h
  simp only [hknown] at h
  split at h
  · exact (Except.ok.inj h).symm
  · cases h

namespace Founded

/-- Only the `length` of a stream changes while it is written. -/
theorem withLength (h : stream.Founded) (length : Nat) :
    ({ stream with length } : Stream).Founded :=
  ⟨h.frame, h.start⟩

theorem lasting : Lasting Founded where
  withLength _ length h := h.withLength length
  located _ _ _ h hlocate := eq_of_locate h.start hlocate ▸ h

theorem describe (h : stream.Founded) : stream.describe = .ok stream.description :=
  describe_eq h.frame

theorem getD_start (h : stream.Founded) : stream.start.getD headerSize = headerSize := by
  rw [h.start, Option.getD_some]

end Founded

end Stream

/-- Every `header` that is composed has the same size. -/
theorem HeaderDraft.length_of_compose {draft : HeaderDraft} {stream : Stream} {header : Bytes}
    (h : (draft.compose stream).1 = .ok header) : header.length = headerSize := by
  unfold compose at h
  cases hdescribe : stream.describe with
  | error defect =>
    rw [hdescribe] at h
    cases h
  | ok d =>
    simp only [hdescribe] at h
    by_cases hlength : stream.length < 2 ^ 63
    · rw [if_pos hlength] at h
      rw [← Except.ok.inj h, length_headerBytes]
    · rw [if_neg hlength] at h
      cases h

/-- A `header` that is read has a stream whose place is known and whose frames fit their field. -/
theorem Header.stream_of_read {store : Store} {header : Header} {scan : Scan}
    (h : Header.read ⟨store, .empty⟩ = .ok header scan) :
    header.stream.bytesPerFrame < 2 ^ 32 ∧
      header.stream.start = some header.stream.region.offset := by
  obtain ⟨start, rate, encoding, -, -, -, hdescribes, hstream⟩ := read_ok h
  rw [hstream]
  exact ⟨Description.frame_lt_of_encoding? hdescribes.encoding, rfl⟩

namespace Writer

variable {writer : Writer}

/-- The stream of the writer is founded. -/
def Founded (writer : Writer) : Prop :=
  writer.stream.Founded

section Lasting

variable {P : Stream → Prop} (hP : Stream.Lasting P)
include hP

/-! ## Steps -/

omit hP in
/-- An `operation` on the store is nothing to the stream. -/
theorem preserves_onStore {α : Type} (operation : StoreM α) :
    Run.Preserves (fun writer => P writer.stream) (onStore operation) :=
  .of_keeps (keeps_onStore (fun _ _ => rfl) _)

omit hP in
theorem preserves_compose : Run.Preserves (fun writer => P writer.stream) compose :=
  .of_keeps (keeps_compose fun _ _ => rfl)

/-- A place that is known stays what it is, also where another `offset` is refused. -/
theorem preserves_locate (offset : Nat) :
    Run.Preserves (fun writer => P writer.stream) (locate offset) := by
  intro writer hwriter
  unfold Run.after locate
  cases hlocate : writer.stream.locate offset with
  | error defect => exact hwriter
  | ok stream => exact hP.located _ _ _ hwriter hlocate

theorem preserves_setLength (length : Nat) :
    Run.Preserves (fun writer => P writer.stream) (setLength length) :=
  fun _ hwriter => hP.withLength _ length hwriter

omit hP in
theorem preserves_get : Run.Preserves (fun writer => P writer.stream) (get : WriterM Writer) :=
  fun _ hwriter => hwriter

omit hP in
theorem preserves_requireIntact : Run.Preserves (fun writer => P writer.stream) requireIntact := by
  intro writer hwriter
  unfold Run.after requireIntact
  cases writer.broken <;> exact hwriter

omit hP in
/-- Breaking is about the flag only. -/
theorem preserves_breaking {operation : WriterM Unit}
    (h : Run.Preserves (fun writer => P writer.stream) operation) :
    Run.Preserves (fun writer => P writer.stream) (breaking operation) := by
  intro writer hwriter
  have hafter := h writer hwriter
  rw [Run.after] at hafter ⊢
  rw [breaking]
  cases hop : operation writer with
  | ok _ left =>
    rw [hop] at hafter
    exact hafter
  | error e left =>
    rw [hop] at hafter
    exact hafter

/-! ## Calls -/

theorem preserves_putHeader : Run.Preserves (fun writer => P writer.stream) putHeader := by
  refine (preserves_onStore _).bind fun _ => preserves_compose.bind fun _ => ?_
  refine (preserves_onStore _).bind fun _ => (preserves_onStore _).bind fun _ => ?_
  exact (preserves_locate hP _).bind fun _ => preserves_onStore _

theorem preserves_putMeasuredHeader :
    Run.Preserves (fun writer => P writer.stream) putMeasuredHeader := by
  refine (preserves_onStore _).bind fun _ => (preserves_onStore _).bind fun _ => ?_
  refine preserves_get.bind fun _ => (preserves_setLength hP _).bind fun _ => ?_
  exact (preserves_putHeader hP).bind fun _ => preserves_onStore _

theorem preserves_writeHeader : Run.Preserves (fun writer => P writer.stream) writeHeader :=
  preserves_requireIntact.bind fun _ => preserves_breaking (preserves_putHeader hP)

theorem preserves_settle : Run.Preserves (fun writer => P writer.stream) settle :=
  preserves_requireIntact.bind fun _ => preserves_breaking (preserves_putMeasuredHeader hP)

theorem preserves_write (samples : ByteArray) :
    Run.Preserves (fun writer => P writer.stream) (write samples) := by
  refine preserves_requireIntact.bind fun _ => (preserves_onStore _).bind fun _ => ?_
  refine (preserves_onStore _).bind fun _ => preserves_get.bind fun _ => ?_
  -- The samples are counted, or not, and an eager writer settles in either case.
  refine .ite ((preserves_setLength hP _).bind fun _ => ?_) ?_
  · exact .ite (preserves_settle hP) (.pure _ _)
  · exact .ite (preserves_settle hP) (.pure _ _)

omit hP in
theorem preserves_endSamples : Run.Preserves (fun writer => P writer.stream) endSamples :=
  (preserves_onStore _).bind fun _ => .bind (fun _ hwriter => hwriter) fun _ => .pure _ _

/-- No call `c` takes away what lasts. -/
theorem preserves_call (c : Call) : Run.Preserves (fun writer => P writer.stream) (call c) := by
  cases c with
  | write samples => exact (preserves_write hP samples).bind fun _ => .pure _ _
  | writeHeader => exact (preserves_writeHeader hP).bind fun _ => .pure _ _
  | settle => exact (preserves_settle hP).bind fun _ => .pure _ _
  | refresh => exact (preserves_settle hP).bind fun _ => .pure _ _
  | eager enabled => exact fun _ hwriter => hwriter
  | endSamples => exact preserves_endSamples.bind fun _ => .pure _ _

/-! ## Runs -/

theorem meet_lasting (h : P writer.stream) (event : Event) : P (writer.meet event).stream := by
  cases event with
  | call c => exact preserves_call hP c writer h
  | change change => exact h

/-- Whatever `events` happen to a writer, what lasts is still true. -/
theorem follow_lasting (h : P writer.stream) (events : List Event) :
    P (writer.follow events).stream := by
  induction events generalizing writer with
  | nil => exact h
  | cons event events ih => exact ih (meet_lasting hP h event)

end Lasting

/-! ## Starting -/

variable {request : StreamRequest} {store store' : Store}

/-- A stream is started for a `request` that passes its checks, and its first header finds its
place. -/
theorem stream_of_create (h : create request store = .ok writer store') :
    request.check = .ok () ∧ writer.stream = { request.stream with start := some headerSize } := by
  obtain ⟨stream, claimed, started, hrequested, -, hwrite, rfl, -⟩ := create_eq_ok_iff.1 h
  obtain ⟨hcheck, rfl⟩ := StreamRequest.requested_eq_ok_iff.1 hrequested
  refine ⟨hcheck, ?_⟩
  rw [writeHeader_eq_breaking rfl, breaking_eq_ok_iff] at hwrite
  obtain ⟨header, placed, _, _, -, hcompose, -, -, hlocate, -, rfl⟩ := putHeader_eq_ok_iff.1 hwrite
  rw [HeaderDraft.length_of_compose hcompose] at hlocate
  have hplaced : { request.stream with start := some headerSize } = placed := Except.ok.inj hlocate
  rw [hplaced, noteLayout]
  split <;> rfl

/-- What lasts is true of a writer from the start, if `P` is true of the streams that are started
and of those that are continued. -/
theorem StartedOn.of_lasting {P : Stream → Prop} (hP : Stream.Lasting P)
    (hcreate : ∀ request : StreamRequest, request.check = .ok () →
      P { request.stream with start := some headerSize })
    (hread : ∀ store header scan, Header.read ⟨store, .empty⟩ = .ok header scan →
      header.stream.region.offset = headerSize → P header.stream)
    (h : writer.StartedOn store) : P writer.stream := by
  have hstarted {request : StreamRequest} {store store' : Store}
      (h : create request store = .ok writer store') : P writer.stream := by
    obtain ⟨hcheck, hstream⟩ := stream_of_create h
    rw [hstream]
    exact hcreate request hcheck
  obtain ⟨request, store', hcreated | happended⟩ := h
  · exact hstarted hcreated
  rcases append_eq_ok_iff.1 happended with
    ⟨empty, -, hcreated⟩ |
    ⟨n, measured, header, scan, stop, found, -, hheader, hoffset, -, -, hsettle, -⟩
  · exact hstarted hcreated
  -- Streams that start elsewhere are not continued.
  · exact (preserves_settle hP).of_ok (hread measured header scan hheader hoffset) hsettle

/-- A writer that has been started on some store, with whatever has happened to it and to its store
since then. -/
def Underway (writer : Writer) : Prop :=
  ∃ (started : Writer) (origin : Store) (events : List Event),
    started.StartedOn origin ∧ writer = started.follow events

/-- What lasts is true of every writer, if `P` is true of the streams that are started and of those
that are continued. -/
theorem Underway.of_lasting {P : Stream → Prop} (hP : Stream.Lasting P)
    (hcreate : ∀ request : StreamRequest, request.check = .ok () →
      P { request.stream with start := some headerSize })
    (hread : ∀ store header scan, Header.read ⟨store, .empty⟩ = .ok header scan →
      header.stream.region.offset = headerSize → P header.stream)
    (h : writer.Underway) : P writer.stream := by
  obtain ⟨started, origin, events, hstarted, rfl⟩ := h
  exact follow_lasting hP (hstarted.of_lasting hP hcreate hread) events

/-- Every writer is founded. -/
theorem Underway.founded (h : writer.Underway) : writer.Founded := by
  refine h.of_lasting Stream.Founded.lasting ?_ ?_
  · intro request hcheck
    exact ⟨Nat.lt_of_le_of_lt (StreamRequest.bytesPerFrame_le hcheck) (by decide), rfl⟩
  · intro store header scan hheader hoffset
    obtain ⟨hframe, hstart⟩ := Header.stream_of_read hheader
    rw [hoffset] at hstart
    exact ⟨hframe, hstart⟩

end Writer

end Caf
