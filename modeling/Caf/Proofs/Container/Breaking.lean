import Caf.Proofs.Container.Events

/-!
# When a writer breaks

A writer breaks exactly when one of its headers could not be written, and it stays broken. Writing a
header has several steps, and so has settling; `HeaderFails` and `SettlingFails` have one
constructor for each of them. A call falters when it writes a header and a step of that fails.
Samples that are not taken do not make a call falter.

## Main results

* `Writer.fails_putHeader_iff`, `Writer.fails_putMeasuredHeader_iff`: a header is not written
  exactly when one of the steps fails;
* `Writer.broken_call_iff`: what one call does to the flag;
* `Writer.broken_follow_iff`: a writer is broken exactly when an earlier call has faltered, and then
  it changes nothing any more.
-/

namespace Caf.Writer

variable {writer : Writer}

/-! ## The steps of writing a header -/

/-- The store with its cursor at the start, where headers go. -/
def rewound (writer : Writer) : Store :=
  writer.store.movedTo 0 writer.store.faults.pace

/-- Writing the header of a writer (`emit_provisional`) fails at one of its steps. -/
inductive HeaderFails (writer : Writer) : Prop where
  /-- The cursor cannot be asked for. -/
  | position (fails : Run.Fails Store.position writer.store)
  /-- There is no header for the stream: its length cannot be declared. -/
  | size {e : Error} (fails : (writer.draft.compose writer.stream).1 = .error e)
  /-- The cursor does not go to the start. -/
  | start (fails : Run.Fails (Store.seekTo 0) writer.store)
  /-- The header is not taken, or not all of it. -/
  | bytes {header : Bytes} (hcompose : (writer.draft.compose writer.stream).1 = .ok header)
      (fails : Run.Fails (Store.writeAll header.toByteArray) writer.rewound)
  /-- The samples are known to start elsewhere. -/
  | place {header : Bytes} {defect : Defect}
      (hcompose : (writer.draft.compose writer.stream).1 = .ok header)
      (fails : writer.stream.locate header.length = .error defect)
  /-- The cursor does not go back. -/
  | resume {header : Bytes} {store : Store}
      (hcompose : (writer.draft.compose writer.stream).1 = .ok header)
      (hwrite : Store.writeAll header.toByteArray writer.rewound = .ok () store)
      (fails : Run.Fails (Store.seekTo (max writer.store.cursor header.length)) store)

/-- The writer once its header has been written: the `store` that this left, and the `stream` with
its place. -/
def withPlace (writer : Writer) (store : Store) (stream : Stream) : Writer :=
  { writer with store, stream, draft := (writer.draft.compose writer.stream).2 }

/-- A header is written by taking all of the steps, none of which is a case of `HeaderFails`. -/
theorem putHeader_eq_ok_iff {writer' : Writer} :
    putHeader writer = .ok () writer' ↔
      ∃ header stream store store',
        Store.position writer.store = .ok writer.store.cursor writer.store ∧
        (writer.draft.compose writer.stream).1 = .ok header ∧
        Store.seekTo 0 writer.store = .ok () writer.rewound ∧
        Store.writeAll header.toByteArray writer.rewound = .ok () store ∧
        writer.stream.locate header.length = .ok stream ∧
        Store.seekTo (max writer.store.cursor header.length) store = .ok () store' ∧
        writer' = writer.withPlace store' stream := by
  have hcompose {header : Bytes} {w : Writer} : compose writer = .ok header w ↔
      (writer.draft.compose writer.stream).1 = .ok header ∧
        w = { writer with draft := (writer.draft.compose writer.stream).2 } := by
    unfold compose
    rcases writer.draft.compose writer.stream with ⟨e | bytes, draft⟩ <;> simp [eq_comm]
  have hlocate {offset : Nat} {w w' : Writer} : locate offset w = .ok () w' ↔
      ∃ stream, w.stream.locate offset = .ok stream ∧ w' = { w with stream } := by
    unfold locate
    cases w.stream.locate offset <;> simp [eq_comm]
  unfold putHeader
  constructor
  -- A step that succeeds leaves the store that the next one starts from.
  · intro h
    obtain ⟨_, _, hstep, h⟩ := Run.bind_eq_ok_iff.1 h
    obtain ⟨_, hposition, rfl⟩ := onStore_eq_ok_iff.1 hstep
    obtain ⟨rfl, rfl⟩ := Store.position_ok hposition
    obtain ⟨header, _, hstep, h⟩ := Run.bind_eq_ok_iff.1 h
    obtain ⟨hheader, rfl⟩ := hcompose.1 hstep
    obtain ⟨_, _, hstep, h⟩ := Run.bind_eq_ok_iff.1 h
    obtain ⟨_, hseek, rfl⟩ := onStore_eq_ok_iff.1 hstep
    obtain rfl := Store.seekTo_ok hseek
    obtain ⟨_, _, hstep, h⟩ := Run.bind_eq_ok_iff.1 h
    obtain ⟨store, hwrite, rfl⟩ := onStore_eq_ok_iff.1 hstep
    obtain ⟨_, _, hstep, h⟩ := Run.bind_eq_ok_iff.1 h
    obtain ⟨stream, hstream, rfl⟩ := hlocate.1 hstep
    obtain ⟨store', hback, rfl⟩ := onStore_eq_ok_iff.1 h
    exact ⟨header, stream, store, store', hposition, hheader, hseek, hwrite, hstream, hback, rfl⟩
  · rintro ⟨header, stream, store, store', hposition, hheader, hseek, hwrite, hstream, hback, rfl⟩
    refine (Run.bind_of_ok (onStore_of_ok hposition)).trans ?_
    refine (Run.bind_of_ok (hcompose.2 ⟨hheader, rfl⟩)).trans ?_
    refine (Run.bind_of_ok (onStore_of_ok hseek)).trans ?_
    refine (Run.bind_of_ok (onStore_of_ok hwrite)).trans ?_
    have hplace : locate header.length
        { writer with store, draft := (writer.draft.compose writer.stream).2 } =
          .ok () (writer.withPlace store stream) := hlocate.2 ⟨stream, hstream, rfl⟩
    refine (Run.bind_of_ok hplace).trans ?_
    exact onStore_of_ok hback

/-- A header is not written exactly when one of the steps fails. -/
theorem fails_putHeader_iff : Run.Fails putHeader writer ↔ writer.HeaderFails := by
  constructor
  -- The first step that fails is the one to name.
  · intro h
    rcases Run.fails_or_ok Store.position writer.store with hfails | ⟨_, _, hposition⟩
    · exact .position hfails
    obtain ⟨rfl, rfl⟩ := Store.position_ok hposition
    rcases Run.fails_or_ok (Store.seekTo 0) writer.store with hfails | ⟨_, _, hseek⟩
    · exact .start hfails
    obtain rfl := Store.seekTo_ok hseek
    cases hcompose : (writer.draft.compose writer.stream).1 with
    | error e => exact .size hcompose
    | ok header =>
      rcases Run.fails_or_ok (Store.writeAll header.toByteArray) writer.rewound with
        hfails | ⟨_, store, hwrite⟩
      · exact .bytes hcompose hfails
      cases hlocate : writer.stream.locate header.length with
      | error defect => exact .place hcompose hlocate
      | ok stream =>
        rcases Run.fails_or_ok (Store.seekTo (max writer.store.cursor header.length)) store with
          hfails | ⟨_, store', hback⟩
        · exact .resume hcompose hwrite hfails
        -- Where no step fails, all of them succeed one after the other.
        have hok : putHeader writer = .ok () (writer.withPlace store' stream) :=
          putHeader_eq_ok_iff.2 ⟨header, stream, store, store', hposition, hcompose, hseek, hwrite,
            hlocate, hback, rfl⟩
        exact absurd h (Run.not_fails_of_ok hok)
  · intro hfails
    rcases Run.fails_or_ok putHeader writer with h | ⟨_, writer', hok⟩
    · exact h
    obtain ⟨header, stream, store, store', hposition, hcompose, hseek, hwrite, hlocate, hback, -⟩ :=
      putHeader_eq_ok_iff.1 hok
    -- The header and the store that a later step starts from are determined.
    cases hfails with
    | position fails => exact absurd fails (Run.not_fails_of_ok hposition)
    | size fails =>
      rw [hcompose] at fails
      cases fails
    | start fails => exact absurd fails (Run.not_fails_of_ok hseek)
    | bytes hcompose' fails =>
      obtain rfl := Except.ok.inj (hcompose.symm.trans hcompose')
      exact absurd fails (Run.not_fails_of_ok hwrite)
    | place hcompose' fails =>
      obtain rfl := Except.ok.inj (hcompose.symm.trans hcompose')
      rw [hlocate] at fails
      cases fails
    | resume hcompose' hwrite' fails =>
      obtain rfl := Except.ok.inj (hcompose.symm.trans hcompose')
      rw [hwrite] at hwrite'
      cases hwrite'
      exact absurd fails (Run.not_fails_of_ok hback)

/-! ## The steps of settling -/

/-- The writer when its store has been found to have `storeLength` bytes. -/
def measuredAs (writer : Writer) (storeLength : Nat) : Writer :=
  let stop :=
    match writer.samplesEnd with
    | some mark => if mark < storeLength then mark else storeLength
    | none => storeLength
  { writer with stream := { writer.stream with length := stop - writer.region.offset } }

/-- Settling a writer (`finalize`) fails at one of its steps. -/
inductive SettlingFails (writer : Writer) : Prop where
  /-- The medium does not keep what was written. -/
  | flush (fails : Run.Fails Store.flush writer.store)
  /-- The store cannot be measured. -/
  | length (fails : Run.Fails Store.length writer.store)
  /-- The header is not written. -/
  | header {storeLength : Nat} (hlength : Store.length writer.store = .ok storeLength writer.store)
      (fails : (writer.measuredAs storeLength).HeaderFails)
  /-- The medium does not keep the header. -/
  | keep {storeLength : Nat} {written : Writer}
      (hlength : Store.length writer.store = .ok storeLength writer.store)
      (hput : putHeader (writer.measuredAs storeLength) = .ok () written)
      (fails : Run.Fails Store.flush written.store)

/-- A call writes a header, and that fails. A write does so when its samples have been taken and the
writer is eager. -/
def Falters (writer : Writer) : Call → Prop
  | .write samples => ∃ store, Store.writeAll samples writer.store = .ok () store ∧
      Store.position store = .ok store.cursor store ∧ writer.eager = true ∧
      (writer.withSamples store).SettlingFails
  | .writeHeader => writer.HeaderFails
  | .settle | .refresh => writer.SettlingFails
  | .eager _ | .endSamples => False

/-- A header is written for the length of the store by taking all of the steps, none of which is a
case of `SettlingFails`. -/
theorem putMeasuredHeader_eq_ok_iff {writer' : Writer} :
    putMeasuredHeader writer = .ok () writer' ↔
      ∃ storeLength, Store.flush writer.store = .ok () writer.store ∧
        Store.length writer.store = .ok storeLength writer.store ∧
        putHeader (writer.measuredAs storeLength) = .ok () writer' ∧
        Store.flush writer'.store = .ok () writer'.store := by
  have hget (w : Writer) : (get : WriterM Writer) w = .ok w w := rfl
  have hset (storeLength : Nat) : setLength
      ((match writer.samplesEnd with
        | some mark => if mark < storeLength then mark else storeLength
        | none => storeLength) - writer.region.offset) writer =
      .ok () (writer.measuredAs storeLength) := rfl
  unfold putMeasuredHeader
  constructor
  · intro h
    obtain ⟨_, _, hstep, h⟩ := Run.bind_eq_ok_iff.1 h
    obtain ⟨_, hflush, rfl⟩ := onStore_eq_ok_iff.1 hstep
    obtain rfl := Store.flush_ok hflush
    obtain ⟨storeLength, _, hstep, h⟩ := Run.bind_eq_ok_iff.1 h
    obtain ⟨_, hlength, rfl⟩ := onStore_eq_ok_iff.1 hstep
    obtain ⟨-, rfl⟩ := Store.length_ok hlength
    replace h := (Run.bind_of_ok (hget _)).symm.trans h
    replace h := (Run.bind_of_ok (hset storeLength)).symm.trans h
    obtain ⟨_, written, hput, h⟩ := Run.bind_eq_ok_iff.1 h
    obtain ⟨_, hkeep, rfl⟩ := onStore_eq_ok_iff.1 h
    obtain rfl := Store.flush_ok hkeep
    exact ⟨storeLength, hflush, hlength, hput, hkeep⟩
  · rintro ⟨storeLength, hflush, hlength, hput, hkeep⟩
    refine (Run.bind_of_ok (onStore_of_ok hflush)).trans ?_
    refine (Run.bind_of_ok (onStore_of_ok hlength)).trans ?_
    refine (Run.bind_of_ok (hget _)).trans ?_
    refine (Run.bind_of_ok (hset storeLength)).trans ?_
    refine (Run.bind_of_ok hput).trans ?_
    exact onStore_of_ok hkeep

/-- A header is not written for the length of the store exactly when one of the steps fails. -/
theorem fails_putMeasuredHeader_iff :
    Run.Fails putMeasuredHeader writer ↔ writer.SettlingFails := by
  constructor
  · intro h
    -- Step by step: the first one to fail is the one that is named.
    rcases Run.fails_or_ok Store.flush writer.store with hfails | ⟨_, _, hflush⟩
    · exact .flush hfails
    obtain rfl := Store.flush_ok hflush
    rcases Run.fails_or_ok Store.length writer.store with hfails | ⟨storeLength, _, hlength⟩
    · exact .length hfails
    obtain ⟨-, rfl⟩ := Store.length_ok hlength
    rcases Run.fails_or_ok putHeader (writer.measuredAs storeLength) with
      hfails | ⟨_, written, hput⟩
    · exact .header hlength (fails_putHeader_iff.1 hfails)
    rcases Run.fails_or_ok Store.flush written.store with hfails | ⟨_, _, hkeep⟩
    · exact .keep hlength hput hfails
    obtain rfl := Store.flush_ok hkeep
    have hok : putMeasuredHeader writer = .ok () written :=
      putMeasuredHeader_eq_ok_iff.2 ⟨storeLength, hflush, hlength, hput, hkeep⟩
    exact absurd h (Run.not_fails_of_ok hok)
  · intro hfails
    -- Had the whole succeeded, every step would have, the one that is said to fail included.
    rcases Run.fails_or_ok putMeasuredHeader writer with h | ⟨_, written, hok⟩
    · exact h
    obtain ⟨storeLength, hflush, hlength, hput, hkeep⟩ := putMeasuredHeader_eq_ok_iff.1 hok
    cases hfails with
    | flush fails => exact absurd fails (Run.not_fails_of_ok hflush)
    | length fails => exact absurd fails (Run.not_fails_of_ok hlength)
    | header hlength' fails =>
      rw [hlength] at hlength'
      cases hlength'
      exact absurd (fails_putHeader_iff.2 fails) (Run.not_fails_of_ok hput)
    | keep hlength' hput' fails =>
      rw [hlength] at hlength'
      cases hlength'
      rw [hput] at hput'
      cases hput'
      exact absurd fails (Run.not_fails_of_ok hkeep)

/-! ## The flag -/

theorem keeps_onStore_broken {α : Type} (operation : StoreM α) :
    Run.Keeps Writer.broken (onStore operation) :=
  keeps_onStore (fun _ _ => rfl) operation

/-- Only `breaking` touches the flag. -/
theorem keeps_putHeader_broken : Run.Keeps Writer.broken putHeader := by
  have hcompose : Run.Keeps Writer.broken compose := keeps_compose fun _ _ => rfl
  have hlocate (offset : Nat) : Run.Keeps Writer.broken (locate offset) := by
    intro writer
    unfold Run.after locate
    cases writer.stream.locate offset <;> rfl
  refine (keeps_onStore_broken _).bind fun _ => hcompose.bind fun _ => ?_
  refine (keeps_onStore_broken _).bind fun _ => (keeps_onStore_broken _).bind fun _ => ?_
  exact (hlocate _).bind fun _ => keeps_onStore_broken _

theorem keeps_putMeasuredHeader_broken : Run.Keeps Writer.broken putMeasuredHeader := by
  have hget : Run.Keeps Writer.broken (get : WriterM Writer) := fun _ => rfl
  have hset (length : Nat) : Run.Keeps Writer.broken (setLength length) := fun _ => rfl
  refine (keeps_onStore_broken _).bind fun _ => (keeps_onStore_broken _).bind fun _ => ?_
  refine hget.bind fun _ => (hset _).bind fun _ => ?_
  exact keeps_putHeader_broken.bind fun _ => keeps_onStore_broken _

/-- A header write breaks the writer exactly when `operation` fails. -/
theorem broken_breaking_iff {operation : WriterM Unit} (hkeeps : Run.Keeps Writer.broken operation)
    (hintact : writer.broken = false) :
    (Run.after (breaking operation) writer).broken = true ↔ Run.Fails operation writer := by
  rw [Run.after, breaking]
  cases h : operation writer with
  | ok _ written =>
    have hflag : written.broken = false := (hkeeps.of_ok h).trans hintact
    simp [hflag, Run.not_fails_of_ok h]
  | error e left => simp [show Run.Fails operation writer from ⟨e, left, h⟩]

theorem broken_writeHeader_iff (hintact : writer.broken = false) :
    (Run.after writeHeader writer).broken = true ↔ writer.HeaderFails := by
  rw [Run.after, writeHeader_eq_breaking hintact, ← Run.after,
    broken_breaking_iff keeps_putHeader_broken hintact, fails_putHeader_iff]

theorem broken_settle_iff (hintact : writer.broken = false) :
    (Run.after settle writer).broken = true ↔ writer.SettlingFails := by
  rw [Run.after, settle_eq_breaking hintact, ← Run.after,
    broken_breaking_iff keeps_putMeasuredHeader_broken hintact, fails_putMeasuredHeader_iff]

/-- A write of `samples` breaks the writer only through the header that it may have to write. -/
theorem broken_write_iff (hintact : writer.broken = false) (samples : ByteArray) :
    (Run.after (write samples) writer).broken = true ↔ writer.Falters (.write samples) := by
  have hresult := writeResult_write hintact samples
  rw [Run.after]
  generalize write samples writer = result at hresult
  cases hresult with
  | short hwrite =>
    constructor
    · intro h
      exact absurd (h.symm.trans hintact) (by decide)
    · rintro ⟨store', hok, -⟩
      rw [hwrite] at hok
      cases hok
  -- The write fails before there is a header to write, so the flag is not touched.
  | lost hwrite hposition =>
    constructor
    · intro h
      exact absurd (h.symm.trans hintact) (by decide)
    · rintro ⟨store', hok, hfound, -⟩
      rw [hwrite] at hok
      cases hok
      rw [hposition] at hfound
      cases hfound
  | @counted store hwrite hposition =>
    have hcounted : (writer.withSamples store).broken = false := hintact
    -- Only an eager writer has a header to write now.
    cases heager : writer.eager with
    | false =>
      constructor
      · intro h
        exact absurd (h.symm.trans hintact) (by decide)
      · rintro ⟨-, -, -, heager', -⟩
        exact absurd (heager'.symm.trans heager) (by decide)
    | true =>
      refine (broken_settle_iff hcounted).trans ?_
      constructor
      · intro hfails
        exact ⟨store, hwrite, hposition, heager, hfails⟩
      · rintro ⟨store', hok, -, -, hfails⟩
        rw [hwrite] at hok
        cases hok
        exact hfails

/-- The calls that a broken writer does not refuse leave the flag alone. -/
theorem keeps_call_broken {c : Call} (hc : ¬ c.NeedsIntact) : Run.Keeps Writer.broken (call c) := by
  cases c with
  | eager enabled => exact fun _ => rfl
  | endSamples =>
    refine .bind (.bind (keeps_onStore_broken _) fun stop => .bind ?_ fun _ => ?_) fun stop => ?_
    · exact fun _ => rfl
    · exact .pure _ _
    · exact .pure _ _
  | _ => exact absurd trivial hc

/-- A call `c` breaks a writer exactly when it falters. -/
theorem broken_call_iff (hintact : writer.broken = false) (c : Call) :
    (Run.after (call c) writer).broken = true ↔ writer.Falters c := by
  cases c with
  | write samples =>
    rw [call, Run.after_bind_pure]
    exact broken_write_iff hintact samples
  | writeHeader =>
    rw [call, Run.after_bind_pure]
    exact broken_writeHeader_iff hintact
  | settle =>
    rw [call, Run.after_bind_pure]
    exact broken_settle_iff hintact
  | refresh =>
    rw [call, Run.after_bind_pure]
    exact broken_settle_iff hintact
  | eager enabled =>
    simp [keeps_call_broken (c := .eager enabled) not_false writer, hintact, Falters]
  | endSamples => simp [keeps_call_broken (c := .endSamples) not_false writer, hintact, Falters]

/-- A broken writer stays so, whatever the `event` is. -/
theorem broken_meet (hbroken : writer.broken = true) (event : Event) :
    (writer.meet event).broken = true := by
  cases event with
  | change change => exact hbroken
  | call c =>
    by_cases hc : c.NeedsIntact
    -- Either the call is refused, or it has nothing to do with headers.
    · rw [meet, Run.after_of_error (call_of_broken hbroken hc), hbroken]
    · rw [meet, keeps_call_broken hc writer, hbroken]

/-- Runs keep what breaks a writer, whatever the `events` are. -/
theorem broken_follow (hbroken : writer.broken = true) (events : List Event) :
    (writer.follow events).broken = true := by
  induction events generalizing writer with
  | nil => exact hbroken
  | cons event events ih => exact ih (broken_meet hbroken event)

/-! ## Runs -/

theorem fails_breaking_iff {operation : WriterM Unit} :
    Run.Fails (breaking operation) writer ↔ Run.Fails operation writer := by
  unfold Run.Fails breaking
  cases operation writer <;> simp

theorem fails_settle_iff (hintact : writer.broken = false) :
    Run.Fails settle writer ↔ writer.SettlingFails := by
  rw [Run.Fails, settle_eq_breaking hintact, ← Run.Fails, fails_breaking_iff,
    fails_putMeasuredHeader_iff]

/-- Of the calls that do nothing but write a header, those that falter are those that fail. -/
theorem fails_call_iff (hintact : writer.broken = false) {c : Call}
    (hc : c ∈ [Call.writeHeader, .settle, .refresh]) :
    Run.Fails (call c) writer ↔ writer.Falters c := by
  simp only [List.mem_cons, List.not_mem_nil, or_false] at hc
  rcases hc with rfl | rfl | rfl
  · rw [call, Run.fails_bind_pure_iff, Run.Fails, writeHeader_eq_breaking hintact, ← Run.Fails,
      fails_breaking_iff, fails_putHeader_iff, Falters]
  · exact (Run.fails_bind_pure_iff ..).trans (fails_settle_iff hintact)
  · exact (Run.fails_bind_pure_iff ..).trans (fails_settle_iff hintact)

/-- A write that settles fails when it falters, though its `samples` have been taken. -/
theorem fails_write_of_falters (hintact : writer.broken = false) {samples : ByteArray}
    (h : writer.Falters (.write samples)) : Run.Fails (call (.write samples)) writer := by
  obtain ⟨store, hwrite, hfound, heager, hfails⟩ := h
  have hcounted : (writer.withSamples store).broken = false := hintact
  have hwritten := write_of_taken hintact hwrite hfound
  rw [heager] at hwritten
  rw [call, Run.fails_bind_pure_iff, Run.Fails, hwritten]
  exact (fails_settle_iff hcounted).2 hfails

theorem breaking_eq_ok_iff {operation : WriterM Unit} {writer' : Writer} :
    breaking operation writer = .ok () writer' ↔ operation writer = .ok () writer' := by
  rw [breaking]
  cases operation writer <;> simp

theorem StartedOn.intact {store : Store} (h : writer.StartedOn store) : writer.broken = false := by
  have hcreated {request : StreamRequest} {store store' : Store}
      (h : create request store = .ok writer store') : writer.broken = false := by
    obtain ⟨stream, claimed, started, -, -, hwrite, rfl, -⟩ := create_eq_ok_iff.1 h
    rw [writeHeader_eq_breaking rfl, breaking_eq_ok_iff] at hwrite
    have hstarted : started.broken = false := keeps_putHeader_broken.of_ok hwrite
    unfold noteLayout
    cases started.draft.description <;> exact hstarted
  obtain ⟨request, store', h | h⟩ := h
  · exact hcreated h
  rcases append_eq_ok_iff.1 h with
    ⟨empty, -, h⟩ | ⟨n, measured, header, scan, stop, found, -, -, -, -, -, hsettle, -⟩
  · exact hcreated h
  · rw [settle_eq_breaking rfl, breaking_eq_ok_iff] at hsettle
    exact keeps_putMeasuredHeader_broken.of_ok hsettle

/-- The flag after some `events`: a call `c` has faltered, and it was the first to do so. -/
theorem broken_iff_exists_falters (hintact : writer.broken = false) (events : List Event) :
    (writer.follow events).broken = true ↔
      ∃ before c after, events = before ++ .call c :: after ∧
        (writer.follow before).broken = false ∧ (writer.follow before).Falters c := by
  constructor
  · intro hbroken
    -- Either the first event breaks the writer, or a later one does.
    induction events generalizing writer with
    | nil => exact absurd (hintact.symm.trans hbroken) nofun
    | cons event events ih =>
      cases hfirst : (writer.meet event).broken with
      | false =>
        obtain ⟨before, c, after, rfl, hbefore, hfalters⟩ := ih hfirst hbroken
        exact ⟨event :: before, c, after, rfl, hbefore, hfalters⟩
      | true =>
        cases event with
        | change change => exact absurd (hintact.symm.trans hfirst) nofun
        | call c => exact ⟨[], c, events, rfl, hintact, (broken_call_iff hintact c).1 hfirst⟩
  · rintro ⟨before, c, after, rfl, hbefore, hfalters⟩
    have hnow : ((writer.follow before).meet (.call c)).broken = true :=
      (broken_call_iff hbefore c).2 hfalters
    rw [follow_append]
    exact broken_follow hnow after

/-- A writer is broken exactly when the header of an earlier call `c` could not be written, which
made that call fail. A write whose samples are not taken, or whose end cannot be found, does not
break it. A broken writer refuses whatever works on its samples or its header, for ever, and neither
that nor letting go of it changes anything. -/
theorem broken_follow_iff {store : Store} (hstarted : writer.StartedOn store)
    (events : List Event) :
    ((writer.follow events).broken = true ↔
      ∃ before c after, events = before ++ .call c :: after ∧
        (writer.follow before).broken = false ∧ (writer.follow before).Falters c) ∧
    ((writer.follow events).broken = false →
      (∀ c ∈ [Call.writeHeader, .settle, .refresh],
        Run.Fails (call c) (writer.follow events) ↔ (writer.follow events).Falters c) ∧
      ∀ samples, (writer.follow events).Falters (.write samples) →
        Run.Fails (call (.write samples)) (writer.follow events)) ∧
    ((writer.follow events).broken = false → ∀ samples e store,
      (Store.writeAll samples (writer.follow events).store = .error e store ∨
        Store.writeAll samples (writer.follow events).store = .ok () store ∧
          Store.position store = .error e store) →
      call (.write samples) (writer.follow events) =
        .error (.device e) { writer.follow events with store }) ∧
    ((writer.follow events).broken = true → ∀ later,
      (writer.follow (events ++ later)).broken = true ∧
      (∀ c : Call, c.NeedsIntact → call c (writer.follow (events ++ later)) =
        .error .broken (writer.follow (events ++ later))) ∧
      (writer.follow (events ++ later)).close =
        (.error .broken, (writer.follow (events ++ later)).store) ∧
      (writer.follow (events ++ later)).release = (writer.follow (events ++ later)).store) := by
  refine ⟨broken_iff_exists_falters hstarted.intact events, ?_, ?_, ?_⟩
  · intro hintact
    exact ⟨fun c hc => fails_call_iff hintact hc, fun samples => fails_write_of_falters hintact⟩
  · rintro hintact samples e store (hwrite | ⟨hwrite, hlost⟩)
    · exact Run.bind_of_error (write_of_error hintact hwrite)
    · exact Run.bind_of_error (write_of_lost hintact hwrite hlost)
  · intro hbroken later
    have hlater : (writer.follow (events ++ later)).broken = true := by
      rw [follow_append]
      exact broken_follow hbroken later
    refine ⟨hlater, fun c hc => call_of_broken hlater hc, close_of_broken hlater, ?_⟩
    rw [release, close_of_broken hlater]

/-- An eager writer breaks when the medium does not keep its samples. They are there, but the writer
refuses more of them though the medium has recovered. -/
theorem broken_follow_of_flush :
    ∃ writer : Writer, writer.StartedOn { bytes := .empty } ∧
      ∃ broken, broken = writer.follow [.call (.eager true), .change (.faults { flush := true }),
        .call (.write ⟨#[1, 2]⟩), .change (.faults .none)] ∧
      broken.broken = true ∧ broken.store.content.drop headerSize = [1, 2] ∧
      call (.write ⟨#[3]⟩) broken = .error .broken broken ∧
      broken.close = (.error .broken, broken.store) := by
  let request : StreamRequest := .mono .pcm16 44100
  let events : List Event := [.call (.eager true), .change (.faults { flush := true }),
    .call (.write ⟨#[1, 2]⟩), .change (.faults .none)]
  have hfacts : (match create request { bytes := .empty } with
      | .ok writer _ => decide ((writer.follow events).broken = true ∧
        (writer.follow events).store.content.drop headerSize = [1, 2])
      | .error _ _ => false) = true := by decide +kernel
  cases hcreate : create request { bytes := .empty } with
  | error e store =>
    rw [hcreate] at hfacts
    cases hfacts
  | ok writer store =>
    rw [hcreate] at hfacts
    obtain ⟨hbroken, hcontent⟩ := of_decide_eq_true hfacts
    have hstarted : writer.StartedOn { bytes := .empty } := ⟨request, store, .inl hcreate⟩
    obtain ⟨-, -, -, habsorbing⟩ := broken_follow_iff hstarted events
    obtain ⟨-, hrefuses, hclose, -⟩ := habsorbing hbroken []
    rw [List.append_nil] at hrefuses hclose
    exact ⟨writer, hstarted, _, rfl, hbroken, hcontent, hrefuses (.write ⟨#[3]⟩) trivial, hclose⟩

end Caf.Writer
