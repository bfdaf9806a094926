import Caf.Proofs.Container.Observing
import Caf.Proofs.Container.Opening
import Caf.Proofs.Sample.Description
import Caf.Proofs.Sample.Rate
import Caf.Store.Change

/-!
# A reader stays in its region

Opening measures the region of the samples once, and the reader that it makes is a value that no
call changes. From then on the bytes may change, the medium may start and stop failing, and calls
may fail half-way; the cursor stays in the region. Nothing is assumed of the store here: what the
medium claims, what it can read and how it splits its transfers is left open, also while the
container is opened.

## Main definitions

* `Reader.Sound`: what opening has established about a reader;
* `Reader.Confines`: the cursor is in the region;
* `Reader.Event`, `Reader.follow`: what happens while a reader is open.

## Main results

* `Header.read_ok`: what is known of a header that has been read;
* `Reader.sound_of_ofStore`: an opened reader is sound;
* `Reader.ends_call`: a call keeps the cursor in the region, and does not go out of range;
* `Reader.confines_follow`: so does every run.
-/

namespace Caf

variable {store : Store}

/-! ## Measuring -/

namespace Store

/-- The length `n` that has been measured is an offset that the medium has. -/
theorem le_reach_of_length {n : Nat} {left : Store} (h : length store = .ok n left) :
    n ≤ store.medium.reach := by
  rw [(length_ok h).1]
  obtain ⟨here, store₀, hposition, h⟩ := Run.bind_eq_ok_iff.1 h
  obtain ⟨stop, store₁, hend, -⟩ := Run.bind_eq_ok_iff.1 h
  rw [(position_ok hposition).2, seekEnd] at hend
  cases hseek : seekTo (store.bytes.size + store.faults.phantom) store with
  | ok _ moved => exact le_reach_of_seekTo hseek
  | error e moved =>
    simp only [hseek] at hend
    cases hend

end Store

/-! ## Opening, whatever the medium does -/

namespace Header

variable {scan scan' : Scan}

/-- The samples that the chunks lead to start within the bytes, at `start`, and the cursor stands
there. -/
theorem readChunks_ok {fileLength start : Nat} {d : Description}
    (h : readChunks fileLength scan = .ok (d, start) scan') :
    start = scan'.store.cursor ∧ start ≤ scan.store.bytes.size := by
  obtain ⟨d', scan₁, hdescription, h⟩ := Run.bind_eq_ok_iff.1 h
  obtain ⟨start', scan₂, hfind, h⟩ := Run.bind_eq_ok_iff.1 h
  obtain ⟨_, scan₃, hremark, h⟩ := Run.bind_eq_ok_iff.1 h
  obtain ⟨hfound, rfl⟩ := Run.pure_eq_ok_iff.1 h
  cases hfound
  cases hremark
  have hstill : Run.Keeps Scan.still readDescription := Scan.steps_still.readDescription
  have hthere := findData_ok hfind
  rwa [Store.bytes_eq_of_still (hstill.of_ok hdescription)] at hthere

/-- A `header` that has been read describes the samples that stand behind it, up to where the medium
claims to end. -/
theorem read_ok {header : Header} (h : read ⟨store, .empty⟩ = .ok header scan') :
    ∃ start rate encoding,
      Store.length store = .ok (store.bytes.size + store.faults.phantom) store ∧
      scan'.store.cursor = start ∧ start ≤ store.bytes.size ∧
      header.description.Describes rate encoding ∧
      header.stream =
        { sampleRate := rate, channels := header.description.channelsPerFrame, encoding,
          order := header.description.byteOrder, start := some start,
          length := store.bytes.size + store.faults.phantom - start } := by
  obtain ⟨fileLength, scan₁, hlength, h⟩ := Run.bind_eq_ok_iff.1 h
  obtain ⟨_, scan₂, hseek, h⟩ := Run.bind_eq_ok_iff.1 h
  obtain ⟨fileHeader, scan₃, hmarked, h⟩ := Run.bind_eq_ok_iff.1 h
  obtain ⟨⟨d, start⟩, scan₄, hchunks, h⟩ := Run.bind_eq_ok_iff.1 h
  obtain ⟨stream, scan₅, hstream, h⟩ := Run.bind_eq_ok_iff.1 h
  obtain ⟨rfl, rfl⟩ := Run.pure_eq_ok_iff.1 h
  have hmeasured := Store.explaining_ok (Scan.onStore_ok hlength).1
  obtain ⟨rfl, hsame⟩ := Store.length_ok hmeasured
  rw [hsame] at hmeasured
  -- The bytes in which the samples are found are those that have been measured.
  have hstill : Run.Keeps Scan.still readMarked := Scan.steps_still.readMarked
  have hseeks := Store.keeps_run (Store.keeps_seekTo 0)
  have hbytes : scan₃.still = store.still := calc
    scan₃.still = scan₂.still := hstill.of_ok hmarked
    _ = scan₁.still := hseeks.of_ok (Scan.onStore_ok hseek).1
    _ = store.still := congrArg Store.still hsame
  obtain ⟨hcursor, hstart⟩ := readChunks_ok hchunks
  rw [Store.bytes_eq_of_still hbytes] at hstart
  obtain ⟨rate, encoding, hdescribes, rfl, rfl⟩ := streamOf_ok hstream
  exact ⟨start, rate, encoding, hmeasured, hcursor.symm, hstart, hdescribes, rfl⟩

end Header

namespace Reader

variable {reader : Reader}

/-- What opening has established about `reader`, for the `fileLength` that the medium claimed. -/
structure Sound (reader : Reader) (fileLength : Nat) : Prop where
  /-- The region starts where the stream says. -/
  start : reader.stream.start = some reader.region.offset
  /-- The region is as long as the stream says. -/
  length : reader.stream.length = reader.region.length
  /-- The region ends with the file. -/
  stop : reader.region.offset + reader.region.length = fileLength
  /-- There is a rate. -/
  rate : reader.stream.sampleRate ≠ 0
  /-- There is a channel. -/
  channels : reader.stream.channels ≠ 0

/-- An opened `reader` is sound, and the cursor stands at its first sample. What has been measured
is an offset that the medium has. -/
theorem sound_of_ofStore {opened : Store} (h : ofStore store = .ok reader opened) :
    reader.Sound (store.bytes.size + store.faults.phantom) ∧
      opened.cursor = reader.region.offset ∧
      store.bytes.size + store.faults.phantom ≤ store.medium.reach := by
  obtain ⟨header, scan, hheader, rfl, rfl⟩ := ofStore_eq_ok_iff.1 h
  obtain ⟨start, rate, encoding, hlength, hcursor, hstart, hdescribes, hstream⟩ :=
    Header.read_ok hheader
  refine ⟨⟨?_, rfl, ?_, ?_, ?_⟩, ?_, Store.le_reach_of_length hlength⟩
  · show header.stream.start = some header.stream.region.offset
    rw [hstream]
    rfl
  · show header.stream.region.offset + header.stream.region.length = _
    rw [hstream]
    show start + (store.bytes.size + store.faults.phantom - start) = _
    omega
  · show header.stream.sampleRate ≠ 0
    rw [hstream]
    exact Header.ne_zero_of_wholeRate? hdescribes.rate
  · show header.stream.channels ≠ 0
    rw [hstream]
    exact hdescribes.channels
  · show scan.store.cursor = header.stream.region.offset
    rw [hstream]
    exact hcursor

/-! ## Calls -/

/-- The cursor is in the region of `reader`, or right behind it. -/
def Confines (reader : Reader) (store : Store) : Prop :=
  reader.region.offset ≤ store.cursor ∧
    store.cursor ≤ reader.region.offset + reader.region.length

/-- A failure `e` that leaves the cursor in the region of `reader`, and is no defect. -/
def Harmless (reader : Reader) (e : Error) (left : Store) : Prop :=
  e.kind ≠ .defect ∧ reader.Confines left

/-- The failures of `operation` on the store are those of the device. -/
theorem ends_run {α : Type} {operation : StoreM α} {good : α → Store → Prop}
    (h : Run.Ends good (fun _ left => reader.Confines left) (operation store)) :
    Run.Ends good reader.Harmless (Store.run operation store) := by
  rw [Store.run, Store.explaining]
  cases hop : operation store with
  | ok x left =>
    rw [hop] at h
    exact h
  | error e left =>
    rw [hop] at h
    exact ⟨by simp [Error.kind], h⟩

section Operations

variable (hconfines : reader.Confines store)
include hconfines

theorem ends_position : Run.Ends (fun here left => here = store.cursor ∧ left = store)
    reader.Harmless (Store.run Store.position store) := by
  refine ends_run ?_
  cases hposition : Store.position store with
  | ok here left => exact Store.position_ok hposition
  | error e left =>
    rw [Store.position_error hposition]
    exact hconfines

theorem ends_seekTo (offset : Nat) : Run.Ends (fun _ left => left.cursor = offset)
    reader.Harmless (Store.run (Store.seekTo offset) store) := by
  refine ends_run ?_
  cases hseek : Store.seekTo offset store with
  | ok _ left =>
    rw [Store.seekTo_ok hseek]
    exact Store.movedTo_cursor ..
  | error e left =>
    rw [Store.seekTo_error hseek]
    exact hconfines

/-- A read that asks for no more than is left of the region stays in it: `want` bytes at most. -/
theorem ends_fill {want : Nat}
    (hwant : store.cursor + want ≤ reader.region.offset + reader.region.length) :
    Run.Ends (fun part left => part.size ≤ want ∧ reader.Confines left) reader.Harmless
      (Store.run (Store.fill want) store) := by
  have hwithin : ∀ left, store.MovedWithin want left → reader.Confines left := by
    rintro left ⟨cursor, pace, rfl, hbehind, hend⟩
    exact ⟨Nat.le_trans hconfines.1 hbehind, Nat.le_trans hend hwant⟩
  refine ends_run ?_
  have hends := Store.ends_fill want store
  cases hfill : Store.fill want store with
  | ok part left =>
    rw [hfill] at hends
    exact ⟨(Store.fill_ok hfill).2.2.1, hwithin left hends⟩
  | error e left =>
    rw [hfill] at hends
    exact hwithin left hends

end Operations

theorem checked_ok {σ α : Type} (x : α) (s : σ) :
    (checked (.ok x) : EStateM Error σ α) s = .ok x s := rfl

section Calls

variable {fileLength : Nat} (hsound : reader.Sound fileLength) (hsmall : fileLength < 2 ^ 64)
  (hconfines : reader.Confines store)

include hsound in
/-- A sound reader has frames. -/
theorem bytesPerFrame_pos : 0 < reader.stream.bytesPerFrame :=
  Nat.mul_pos (Encoding.bytesPerSample_pos _)
    (Nat.pos_of_ne_zero fun hzero => hsound.channels (UInt32.toNat_inj.1 hzero))

/-- The bytes of a frame fit sixty-four bits, however many channels there are. -/
theorem bytesPerFrame_lt : reader.stream.bytesPerFrame < 2 ^ 64 := by
  have hwidth := reader.stream.encoding.bytesPerSample_le
  have hchannels := reader.stream.channels.toNat_lt
  calc reader.stream.bytesPerFrame
      ≤ 8 * reader.stream.channels.toNat := Nat.mul_le_mul_right _ hwidth
    _ < 2 ^ 64 := by omega

include hsound in
/-- A sound reader counts the whole frames of its region. -/
theorem frames_eq :
    reader.stream.frames = reader.region.length / reader.stream.bytesPerFrame := by
  rw [Stream.frames, if_neg (Nat.ne_of_gt (bytesPerFrame_pos hsound)), hsound.length]

include hsound in
/-- A `frame` that a sound reader counts is in its region. -/
theorem mul_bytesPerFrame_le {frame : Nat} (h : frame ≤ reader.stream.frames) :
    frame * reader.stream.bytesPerFrame ≤ reader.region.length := by
  rw [frames_eq hsound] at h
  exact (Nat.le_div_iff_mul_le (bytesPerFrame_pos hsound)).1 h

/-- A `frame` behind the last one is refused before anything is done. -/
theorem goToFrame_of_beyond {frame : Nat} (h : reader.stream.frames < frame) :
    reader.goToFrame frame store =
      .error (.badParameter (.frameBeyondEnd frame reader.stream.frames)) store := by
  rw [goToFrame]
  simp only [if_pos h]
  exact Run.bind_of_error rfl

include hsound hsmall in
/-- A `frame` that is there, or the end of the last one, is sought where it starts. -/
theorem goToFrame_eq {frame : Nat} (h : frame ≤ reader.stream.frames) :
    reader.goToFrame frame store = (do
      Store.run (Store.seekTo (reader.region.offset + frame * reader.stream.bytesPerFrame))
      return frame : CafM Nat) store := by
  -- The frame is in the region, so neither its distance nor its offset leaves the range.
  have hdistance := mul_bytesPerFrame_le hsound h
  have hstop := hsound.stop
  have hproduct : multiplyWithin 64 frame reader.stream.bytesPerFrame =
      .ok (frame * reader.stream.bytesPerFrame) :=
    if_pos (show frame * reader.stream.bytesPerFrame < 2 ^ 64 by omega)
  have hsum : addWithin 64 reader.region.offset (frame * reader.stream.bytesPerFrame) =
      .ok (reader.region.offset + frame * reader.stream.bytesPerFrame) :=
    if_pos (show reader.region.offset + frame * reader.stream.bytesPerFrame < 2 ^ 64 by omega)
  rw [goToFrame]
  simp only [if_neg (Nat.not_lt.2 h), hproduct]
  rw [Run.bind_of_ok (checked_ok _ _), hsum, Run.bind_of_ok (checked_ok _ _)]

include hsound hsmall in
/-- The end of the region of a sound reader is in range. -/
theorem stop_eq : reader.region.stop = .ok (reader.region.offset + reader.region.length) :=
  if_pos (by rw [hsound.stop]; exact hsmall)

section Confined

include hsound hconfines

theorem ends_currentFrame :
    Run.Ends (fun _ left => reader.Confines left) reader.Harmless (reader.currentFrame store) := by
  refine (ends_position hconfines).bind ?_
  rintro _ _ ⟨rfl, rfl⟩
  rw [if_neg (Nat.ne_of_gt (bytesPerFrame_pos hsound))]
  exact hconfines

include hsmall

/-- A cursor in the region need not be moved there, and a read of `want` bytes stays in what is left
of it. -/
theorem ends_read (want : Nat) :
    Run.Ends (fun _ left => reader.Confines left) reader.Harmless (reader.read want store) := by
  -- The cursor does not stand in front of the region, so that it is not moved.
  have henter : Run.Ends (fun here left => here = store.cursor ∧ left = store) reader.Harmless
      (reader.enterRegion store) := by
    refine (ends_position hconfines).bind ?_
    rintro _ _ ⟨rfl, rfl⟩
    rw [if_neg (Nat.not_lt.2 hconfines.1)]
    exact ⟨rfl, rfl⟩
  refine henter.bind ?_
  rintro _ _ ⟨rfl, rfl⟩
  rw [stop_eq hsound hsmall]
  refine (ends_fill hconfines ?_).mono (fun _ _ h => h.2) (fun _ _ h => h)
  have hend := hconfines.2
  omega

/-- A `frame` that is there, or the end of the last one, is in the region. -/
theorem ends_goToFrame (frame : Nat) :
    Run.Ends (fun _ left => reader.Confines left) reader.Harmless
      (reader.goToFrame frame store) := by
  by_cases hframe : reader.stream.frames < frame
  case pos =>
    rw [goToFrame_of_beyond hframe]
    exact ⟨by simp [Error.kind], hconfines⟩
  have hdistance := mul_bytesPerFrame_le hsound (Nat.not_lt.1 hframe)
  rw [goToFrame_eq hsound hsmall (Nat.not_lt.1 hframe)]
  refine (ends_seekTo hconfines _).bind ?_
  intro _ left hcursor
  have hthere : reader.Confines left := by
    rw [Confines, hcursor]
    omega
  exact hthere

theorem ends_digest :
    Run.Ends (fun _ left => reader.Confines left) reader.Harmless (reader.digest store) := by
  refine (ends_position hconfines).bind ?_
  rintro _ _ ⟨rfl, rfl⟩
  refine (ends_seekTo hconfines _).bind ?_
  intro _ entered hstart
  have hentered : reader.Confines entered := by
    rw [Confines, hstart]
    omega
  refine (ends_fill hentered (Nat.le_of_eq (by rw [hstart]))).bind ?_
  rintro samples read ⟨hsize, hread⟩
  refine (ends_seekTo hread _).bind ?_
  intro _ left hback
  -- The cursor is where it was, also where fewer bytes are there than have been measured.
  have hleft : reader.Confines left := by
    rw [Confines, hback]
    exact hconfines
  by_cases hshort : samples.size ≠ reader.region.length
  case neg =>
    rw [if_neg hshort]
    exact hleft
  have hstop := hsound.stop
  have hsum : addWithin 64 reader.region.offset samples.size =
      .ok (reader.region.offset + samples.size) :=
    if_pos (show reader.region.offset + samples.size < 2 ^ 64 by omega)
  rw [if_pos hshort, hsum, Run.bind_of_ok (checked_ok _ _)]
  exact ⟨by simp [Error.kind, Error.malformedAt], hleft⟩

/-- The call `c` keeps the cursor in the region and does not go out of range, whatever comes of it.
-/
theorem ends_call (c : Call) :
    Run.Ends (fun _ left => reader.Confines left) reader.Harmless (reader.call c store) := by
  cases c with
  | read want => exact (ends_read hsound hsmall hconfines want).bind fun _ _ h => h
  | goToFrame frame => exact (ends_goToFrame hsound hsmall hconfines frame).bind fun _ _ h => h
  | currentFrame => exact (ends_currentFrame hsound hconfines).bind fun _ _ h => h
  | digest => exact (ends_digest hsound hsmall hconfines).bind fun _ _ h => h

end Confined

end Calls

end Reader

/-! ## Runs -/

namespace Store

/-- A change to the bytes or to the medium, which leaves the cursor where it is. -/
def Change.KeepsCursor : Change → Prop
  | .append _ | .truncate _ | .patch .. | .faults _ => True
  | .moveCursor _ => False

theorem Change.KeepsCursor.cursor_eq {change : Change} (h : change.KeepsCursor) (store : Store) :
    (store.change change).cursor = store.cursor := by
  cases change with
  | moveCursor offset => exact h.elim
  | append data => rfl
  | truncate length => rfl
  | patch offset data => rfl
  | faults faults => rfl

end Store

namespace Reader

/-- What happens while a reader is open. -/
inductive Event where
  /-- The reader is called. -/
  | call (c : Call)
  /-- The store changes between two calls. -/
  | change (change : Store.Change)

variable {reader : Reader}

/-- The store after an event. A call that fails leaves a store behind, too. -/
def meet (reader : Reader) (store : Store) : Event → Store
  | .call c => Run.after (reader.call c) store
  | .change change => store.change change

/-- The store after `events`. -/
def follow (reader : Reader) (store : Store) (events : List Event) : Store :=
  events.foldl reader.meet store

/-- Whatever the `event` is, it keeps the cursor in the region. -/
theorem Confines.meet {fileLength : Nat} (hsound : reader.Sound fileLength)
    (hsmall : fileLength < 2 ^ 64) (hconfines : reader.Confines store) {event : Event}
    (hevent : ∀ change, event = .change change → change.KeepsCursor) :
    reader.Confines (reader.meet store event) := by
  cases event with
  | call c =>
    have hends := ends_call hsound hsmall hconfines c
    show reader.Confines (Run.after (reader.call c) store)
    cases hcall : reader.call c store with
    | ok answer left =>
      rw [hcall] at hends
      rw [Run.after_of_ok hcall]
      exact hends
    | error e left =>
      rw [hcall] at hends
      rw [Run.after_of_error hcall]
      exact hends.2
  -- A change from outside may alter the content and the length, but not where the cursor is.
  | change change =>
    show reader.Confines (store.change change)
    rw [Confines, (hevent change rfl).cursor_eq]
    exact hconfines

/-- A run of `events` keeps the cursor in the region. -/
theorem Confines.follow {fileLength : Nat} (hsound : reader.Sound fileLength)
    (hsmall : fileLength < 2 ^ 64) (hconfines : reader.Confines store) {events : List Event}
    (hevents : ∀ change, .change change ∈ events → change.KeepsCursor) :
    reader.Confines (reader.follow store events) := by
  -- Each event starts from what the one before it has left, also where that failed.
  refine List.foldlRecOn events reader.meet hconfines ?_
  intro current hcurrent event hmem
  apply hcurrent.meet hsound hsmall
  rintro change rfl
  exact hevents change hmem

/-- Whatever the medium did while the container in `store` was opened, its region ends where the
medium claimed to end, and it has a rate and channels. Whatever happens to the store from then on,
as long as nobody else moves the cursor, the cursor stays in the region of this same `reader`, also
after calls that fail, and no call leaves the range of its arithmetic. -/
theorem confines_follow {opened : Store} (hreach : store.medium.reach < 2 ^ 64)
    (hopen : ofStore store = .ok reader opened) :
    reader.Sound (store.bytes.size + store.faults.phantom) ∧
    reader.region.stop = .ok (store.bytes.size + store.faults.phantom) ∧
    0 < reader.stream.bytesPerFrame ∧ reader.stream.bytesPerFrame < 2 ^ 64 ∧
    ∀ events : List Event, (∀ change, .change change ∈ events → change.KeepsCursor) →
      reader.Confines (reader.follow opened events) ∧
      ∀ c defect left,
        reader.call c (reader.follow opened events) ≠ .error (.defect defect) left := by
  obtain ⟨hsound, hcursor, hlength⟩ := sound_of_ofStore hopen
  have hsmall := Nat.lt_of_le_of_lt hlength hreach
  have hopened : reader.Confines opened := by
    rw [Confines, hcursor]
    omega
  refine ⟨hsound, ?_, bytesPerFrame_pos hsound, bytesPerFrame_lt, ?_⟩
  · rw [stop_eq hsound hsmall, hsound.stop]
  intro events hevents
  have hconfines := hopened.follow hsound hsmall hevents
  refine ⟨hconfines, ?_⟩
  intro c defect left hcall
  have hends := ends_call hsound hsmall hconfines c
  rw [hcall] at hends
  exact hends.1 rfl

/-- A container of seven bytes of samples is opened on a medium that claims five more of them. Its
digest is asked for while seeking fails, its samples are read where some cannot be, and they are cut
off. -/
theorem confines_follow_of_phantom :
    ∃ (store opened : Store) (reader : Reader), store.bytes.size = 75 ∧
      ofStore store = .ok reader opened ∧ reader.region = ⟨68, 12⟩ ∧
      reader.Confines (reader.follow opened [.call (.read 2), .change (.faults { seek := true }),
        .call .digest, .change (.faults { bad := some ⟨70, .seekFailed⟩ }), .call (.goToFrame 5),
        .call (.read 100), .change (.faults {}), .change (.truncate 30), .call .digest]) := by
  let description : Description := ⟨⟨0x40E5888000000000⟩, Description.lpcm, 0, 2, 1, 1, 16⟩
  let store : Store :=
    { bytes := ⟨(headerBytes description (-1) ++ [1, 2, 3, 4, 5, 6, 7]).toArray⟩
      faults := { phantom := 5, pace := [.short 2, .interrupted] } }
  have hopens : (match ofStore store with
      | .ok reader _ => decide (reader.region = ⟨68, 12⟩)
      | .error _ _ => false) = true := by
    decide +kernel
  cases hopen : ofStore store with
  | error e left =>
    rw [hopen] at hopens
    cases hopens
  | ok reader opened =>
    rw [hopen] at hopens
    refine ⟨store, opened, reader, by decide, hopen, of_decide_eq_true hopens, ?_⟩
    refine ((confines_follow (by decide) hopen).2.2.2.2 _ ?_).1
    simp [Store.Change.KeepsCursor]

end Reader

end Caf
