import Caf.Proofs.Container.Confining
import Caf.Proofs.Container.Draining

/-!
# Reading the region and nothing else

A read hands out the bytes from the cursor on up to the end of the region, however the medium splits
or interrupts it. As long as the samples are there and can be read, each read goes on where the last
one stopped, so that the reads of a run make up the samples from the front. What is appended in the
meantime is not seen.

## Main definitions

* `Reader.Serves`: the samples of the region are there and can be read;
* `Store.Change.Mild`: a change that leaves the bytes where they are and lets them be read;
* `Reader.gather`: what the calls of a run hand out, one behind the other.

## Main results

* `Reader.read_slice`: what one read hands out;
* `Reader.Serves.gather_eq`: what the reads of a run hand out;
* `Reader.read_serves_region`: reading hands out the region and nothing else.
-/

namespace Caf

/-- What is taken of `bytes`, and then of those behind what came, is taken of all of them. -/
theorem Bytes.take_append_take_drop (bytes : Bytes) (first next : Nat) :
    bytes.take first ++ (bytes.drop (bytes.take first).length).take next =
      bytes.take (first + next) := by
  by_cases hfits : first ≤ bytes.length
  case pos => rw [List.length_take, Nat.min_eq_left hfits, List.take_add]
  case neg =>
    have hlong := Nat.le_of_not_le hfits
    rw [List.take_of_length_le hlong, List.drop_length, List.take_nil, List.append_nil,
      List.take_of_length_le (Nat.le_trans hlong (Nat.le_add_right ..))]

namespace Reader

variable {store left : Store} {reader : Reader} {samples : Bytes}

/-! ## One read -/

/-- A read of `want` bytes hands out what the store has from the cursor on, or from the start of the
region on if the cursor is in front of it, and stops at the end of the region. -/
theorem read_slice (hseek : store.faults.seek = false) (hbad : store.faults.bad = none)
    (hoffset : reader.region.offset ≤ store.medium.reach)
    (hstop : reader.region.offset + reader.region.length < 2 ^ 64) (want : Nat) {start : Nat}
    (hstart : max store.cursor reader.region.offset = start) :
    ∃ part pace, reader.read want store = .ok part (store.movedTo (start + part.size) pace) ∧
      part.data.toList = (store.content.drop start).take
        (min want (reader.region.offset + reader.region.length - start)) := by
  obtain ⟨pace, hread⟩ := read_eq hseek hbad hoffset hstop want hstart rfl
  exact ⟨_, pace, hread, Store.toList_slice ..⟩

/-! ## Samples that are there -/

/-- The number of bytes of the region in front of the cursor. -/
def passed (reader : Reader) (store : Store) : Nat :=
  store.cursor - reader.region.offset

/-- In a region that has been entered, the bytes `passed` are counted. -/
theorem Confines.passed_movedTo_add (h : reader.Confines store) (distance : Nat)
    (pace : List Turn) : reader.passed (store.movedTo (store.cursor + distance) pace) =
      reader.passed store + distance := by
  have hbehind := h.1
  rw [passed, passed, Store.movedTo_cursor]
  omega

/-- The region of `reader` has `samples`, all of them are there and can be read, and the cursor is
among them or right behind them. -/
structure Serves (reader : Reader) (samples : Bytes) (store : Store) : Prop where
  /-- Seeking works. -/
  seek : store.faults.seek = false
  /-- All bytes can be read. -/
  bad : store.faults.bad = none
  /-- The end of the region is at an offset that the medium has. -/
  reach : reader.region.offset + reader.region.length ≤ store.medium.reach
  /-- The end of the region is in range. -/
  stop_lt : reader.region.offset + reader.region.length < 2 ^ 64
  /-- The samples stand in the region. -/
  content : (store.content.drop reader.region.offset).take reader.region.length = samples
  /-- There are as many samples as the region has room for. -/
  length : samples.length = reader.region.length
  /-- The cursor is in the region. -/
  confines : reader.Confines store

namespace Serves

/-- Where nothing but the cursor has moved, the samples are still there. -/
theorem of_still (h : reader.Serves samples store) (hstill : left.still = store.still)
    (hconfines : reader.Confines left) : reader.Serves samples left where
  seek := (congrArg (·.faults.seek) hstill).trans h.seek
  bad := (congrArg (·.faults.bad) hstill).trans h.bad
  reach := by
    have hmedium : left.medium = store.medium := congrArg (·.medium) hstill
    rw [hmedium]
    exact h.reach
  stop_lt := h.stop_lt
  content := by
    rw [Store.content, Store.bytes_eq_of_still hstill]
    exact h.content
  length := h.length
  confines := hconfines

/-- The region of a container that has just been `opened` serves its samples. -/
theorem of_ofStore {opened : Store} (hread : store.Readable) (hreach : store.medium.reach < 2 ^ 64)
    (hopen : ofStore store = .ok reader opened) :
    reader.Serves (store.content.drop reader.region.offset) opened := by
  obtain ⟨hsound, hcursor, hlength⟩ := sound_of_ofStore hopen
  have hstop := hsound.stop
  rw [hread.phantom] at hstop hlength
  have hsize : (store.content.drop reader.region.offset).length = reader.region.length := by
    rw [List.length_drop, Store.length_content]
    omega
  have hstart : reader.Confines (store.movedTo reader.region.offset []) :=
    ⟨Nat.le_refl _, Nat.le_add_right ..⟩
  have hserves : reader.Serves (store.content.drop reader.region.offset)
      (store.movedTo reader.region.offset []) := by
    refine ⟨hread.seek, hread.bad, ?_, by omega, ?_, hsize, hstart⟩
    · rw [Store.movedTo_medium, hstop]
      exact hlength
    · rw [Store.movedTo_content, List.take_of_length_le (Nat.le_of_eq hsize)]
  -- Opening has not touched the samples, and the cursor stands at the first of them.
  have hstill : opened.still = store.still := keeps_ofStore.of_ok hopen
  refine hserves.of_still hstill ?_
  rw [Confines, hcursor]
  exact ⟨Nat.le_refl _, Nat.le_add_right ..⟩

variable (h : reader.Serves samples store)
include h

/-- The cursor passes samples of the region only. -/
theorem passed_le : reader.passed store ≤ samples.length := by
  have hend := h.confines.2
  rw [passed, h.length]
  omega

/-- A read hands out the samples behind those that have been `passed`, and passes them. -/
theorem read_eq (want : Nat) :
    ∃ part pace, reader.read want store =
        .ok part (store.movedTo (store.cursor + part.size) pace) ∧
      part.data.toList = (samples.drop (reader.passed store)).take want ∧
      reader.Serves samples (store.movedTo (store.cursor + part.size) pace) := by
  obtain ⟨hbehind, hend⟩ := h.confines
  have hoffset := Nat.le_trans (Nat.le_add_right ..) h.reach
  obtain ⟨part, pace, hread, hpart⟩ :=
    read_slice h.seek h.bad hoffset h.stop_lt want (Nat.max_eq_left hbehind)
  -- What is left of the region behind the cursor is what is left of the samples.
  have hsamples : part.data.toList = (samples.drop (reader.passed store)).take want := by
    have hcursor : reader.region.offset + reader.passed store = store.cursor := by
      rw [passed]
      omega
    have hrest : reader.region.length - reader.passed store =
        reader.region.offset + reader.region.length - store.cursor := by
      rw [passed]
      omega
    rw [hpart, ← h.content, List.drop_take, List.drop_drop, List.take_take, hcursor, hrest]
  have hsize : part.size ≤ samples.length - reader.passed store := by
    rw [← ByteArray.size_data, ← Array.length_toList, hsamples, List.length_take, List.length_drop]
    exact Nat.min_le_right ..
  refine ⟨part, pace, hread, hsamples, h.of_still rfl ⟨?_, ?_⟩⟩
  · exact Nat.le_trans hbehind (Nat.le_add_right ..)
  · rw [h.length, passed] at hsize
    rw [Store.movedTo_cursor]
    omega

end Serves

end Reader

/-! ## Changes in the meantime -/

/-- A change that leaves the bytes where they are and lets them be read: bytes are appended, or the
medium works with other faults or another pace. -/
def Store.Change.Mild : Change → Prop
  | .append _ => True
  | .faults new => new.seek = false ∧ new.bad = none
  | .truncate _ | .patch .. | .moveCursor _ => False

/-- A mild change leaves the cursor where it is. -/
theorem Store.Change.Mild.keepsCursor {change : Change} (h : change.Mild) : change.KeepsCursor := by
  cases change with
  | append data => exact trivial
  | faults new => exact trivial
  | truncate length => exact trivial
  | patch offset data => exact trivial
  | moveCursor offset => exact h

namespace Reader

variable {store : Store} {reader : Reader} {samples : Bytes}

/-- The samples are still there after a mild `change`. -/
theorem Serves.change (h : reader.Serves samples store) {change : Store.Change}
    (hmild : change.Mild) : reader.Serves samples (store.change change) := by
  cases change with
  | append data =>
    refine ⟨h.seek, h.bad, h.reach, h.stop_lt, ?_, h.length, h.confines⟩
    -- The region is full, so that what is appended stands behind it.
    have hfull := congrArg List.length h.content
    rw [h.length, List.length_take] at hfull
    have hcontent : (store.change (.append data)).content = store.content ++ data.data.toList :=
      ByteArray.toList_data_append ..
    rw [hcontent, List.drop_append, List.take_append_of_le_length (by omega), h.content]
  | faults new =>
    exact ⟨hmild.1, hmild.2, h.reach, h.stop_lt, h.content, h.length, h.confines⟩
  | truncate length => exact hmild.elim
  | patch offset data => exact hmild.elim
  | moveCursor offset => exact hmild.elim

/-! ## Runs of reads -/

/-- The bytes that an answer hands out. -/
def Answer.bytes : Answer → Bytes
  | .samples bytes => bytes.data.toList
  | .frame _ | .digest _ => []

/-- Lets events happen one after the other, and gathers the samples that are handed out. It fails
with the first call that fails. -/
def gather (reader : Reader) : List Event → CafM Bytes
  | [] => return []
  | .call c :: events => do
    let answer ← reader.call c
    let rest ← reader.gather events
    return answer.bytes ++ rest
  | .change change :: events => do
    modify (·.change change)
    reader.gather events

namespace Event

/-- The event is a read or a mild change. -/
def Reads : Event → Prop
  | .call (.read _) => True
  | .call _ => False
  | .change c => c.Mild

/-- The number of bytes that the event asks for. -/
def wanted : Event → Nat
  | .call (.read want) => want
  | .call _ => 0
  | .change _ => 0

/-- The number of bytes that some events ask for. -/
def wantedBy : List Event → Nat
  | [] => 0
  | event :: events => event.wanted + wantedBy events

end Event

/-- The reads among `events` hand out the samples behind those that have been `passed`, as many as
all of the reads ask for. -/
theorem Serves.gather_eq (h : reader.Serves samples store) {events : List Event}
    (hevents : ∀ event ∈ events, event.Reads) :
    ∃ left, reader.gather events store =
      .ok ((samples.drop (reader.passed store)).take (Event.wantedBy events)) left := by
  -- Each event leaves the samples where they are, so that the rest of the run reads on.
  induction events generalizing store with
  | nil => exact ⟨store, rfl⟩
  | cons event events ih =>
    have hfirst := hevents event List.mem_cons_self
    have hrest := fun other hmem => hevents other (List.mem_cons_of_mem event hmem)
    cases event with
    | change change =>
      have hmild : change.Mild := hfirst
      obtain ⟨left, hgather⟩ := ih (h.change hmild) hrest
      have hpassed : reader.passed (store.change change) = reader.passed store := by
        rw [passed, hmild.keepsCursor.cursor_eq, passed]
      have hmodify : (modify (·.change change) : CafM Unit) store = .ok () (store.change change) :=
        rfl
      rw [hpassed] at hgather
      refine ⟨left, ?_⟩
      rw [gather, Run.bind_of_ok hmodify, hgather, Event.wantedBy, Event.wanted, Nat.zero_add]
    | call c =>
      cases c with
      | goToFrame frame => exact hfirst.elim
      | currentFrame => exact hfirst.elim
      | digest => exact hfirst.elim
      | read want =>
        obtain ⟨part, pace, hread, hpart, hserves⟩ := h.read_eq want
        obtain ⟨left, hgather⟩ := ih hserves hrest
        have hcall : reader.call (.read want) store =
            .ok (.samples part) (store.movedTo (store.cursor + part.size) pace) :=
          Run.bind_of_ok hread
        have hpassed : reader.passed (store.movedTo (store.cursor + part.size) pace) =
            reader.passed store + ((samples.drop (reader.passed store)).take want).length := by
          rw [h.confines.passed_movedTo_add, ← hpart, Array.length_toList, ByteArray.size_data]
        rw [hpassed, ← List.drop_drop] at hgather
        refine ⟨left, ?_⟩
        rw [gather, Run.bind_of_ok hcall, Run.bind_of_ok hgather]
        show EStateM.Result.ok (part.data.toList ++ _) left = _
        rw [hpart, Bytes.take_append_take_drop, Event.wantedBy, Event.wanted]

/-- Reading with `read_raw` hands out the region and nothing else. Whatever the medium did while a
container was opened by `reader`, and whatever the store holds `now`: as long as seeking works and
the bytes can be read, a read starts at the cursor, or at the start of the region if the cursor is
in front of it, hands out the bytes up to where it was asked to stop, the region stops or the store
does, and leaves the cursor behind them. So if nothing was at fault when the container was opened,
the reads that follow make up the samples from the front, also where something is appended in the
meantime. -/
theorem read_serves_region {opened : Store} (hreach : store.medium.reach < 2 ^ 64)
    (hopen : ofStore store = .ok reader opened) :
    (∀ (now : Store) (want start : Nat), now.medium = store.medium → now.faults.seek = false →
      now.faults.bad = none → start = max now.cursor reader.region.offset →
      ∃ part pace, reader.read want now = .ok part (now.movedTo (start + part.size) pace) ∧
        part.data.toList = (now.content.take (min (start + want)
          (min (reader.region.offset + reader.region.length) now.bytes.size))).drop start) ∧
    (store.Readable → ∀ events : List Event, (∀ event ∈ events, event.Reads) →
      ∃ left, reader.gather events opened =
        .ok ((store.content.drop reader.region.offset).take
          (min (Event.wantedBy events) reader.region.length)) left) := by
  obtain ⟨hsound, hcursor, hlength⟩ := sound_of_ofStore hopen
  have hstop := hsound.stop
  refine ⟨?_, ?_⟩
  · intro now want start hmedium hseek hbad hstart
    have hoffset : reader.region.offset ≤ now.medium.reach := by
      rw [hmedium]
      omega
    obtain ⟨part, pace, hread, hpart⟩ :=
      read_slice hseek hbad hoffset (by omega) want hstart.symm
    refine ⟨part, pace, hread, ?_⟩
    -- Behind the end of the store there is nothing to take, whatever is asked for.
    rw [hpart, List.drop_take, List.take_eq_take_iff, List.length_drop, Store.length_content]
    omega
  · intro hreadable events hevents
    have hserves := Serves.of_ofStore hreadable hreach hopen
    obtain ⟨left, hgather⟩ := hserves.gather_eq hevents
    refine ⟨left, ?_⟩
    have hpassed : reader.passed opened = 0 := by
      rw [passed, hcursor, Nat.sub_self]
    rw [hgather, hpassed, List.drop_zero, ← hserves.length]
    exact congrArg (EStateM.Result.ok · left) List.take_eq_take_min

/-- Five samples are read from in front of the region, a byte at a time and with more behind them
than is theirs, and again in three reads while something is appended. -/
theorem read_serves_region_of_slow :
    ∃ (store opened now : Store) (reader : Reader), ofStore store = .ok reader opened ∧
      reader.region = ⟨68, 5⟩ ∧ now.cursor = 3 ∧ now.faults.pace = [.interrupted, .short 0] ∧
      now.bytes = store.bytes ++ ⟨#[99]⟩ ∧
      (∃ part left, reader.read 9 now = .ok part left ∧ part.data.toList = [1, 2, 3, 4, 5]) ∧
      ∃ left, reader.gather [.call (.read 2), .change (.append ⟨#[99]⟩), .call (.read 0),
        .change (.faults { pace := [.short 0] }), .call (.read 9)] opened =
          .ok [1, 2, 3, 4, 5] left := by
  let description : Description := ⟨⟨0x40E5888000000000⟩, Description.lpcm, 0, 2, 1, 1, 16⟩
  let l : Layout := ⟨1, 0, description, [], ⟨[], -1, 0, [1, 2, 3, 4, 5], by decide⟩, by decide⟩
  let store : Store := { bytes := ⟨l.toBytes.toArray⟩ }
  let now : Store :=
    { bytes := store.bytes ++ ⟨#[99]⟩, cursor := 3, faults := { pace := [.interrupted, .short 0] } }
  have hlength : store.bytes.size = 73 := l.length_toBytes
  have hreadable : store.Readable :=
    .of_memory _ (Nat.lt_of_le_of_lt (Nat.le_of_eq hlength) (by decide))
  have hdescribes : l.description.Describes 44100 .pcm16 := ⟨by decide, by decide, by decide⟩
  obtain ⟨pace, hopen⟩ := ofStore_of_describes hreadable rfl hdescribes
  obtain ⟨hread, hgather⟩ := read_serves_region (by decide) hopen
  obtain ⟨part, pace', hpart, hbytes⟩ := hread now 9 68 rfl rfl rfl rfl
  have hsamples : store.content.drop 68 = [1, 2, 3, 4, 5] := l.drop_start
  obtain ⟨left, hrun⟩ := hgather hreadable [.call (.read 2), .change (.append ⟨#[99]⟩),
    .call (.read 0), .change (.faults { pace := [.short 0] }), .call (.read 9)] (by
      simp [Event.Reads, Store.Change.Mild])
  refine ⟨store, _, now, _, hopen, rfl, rfl, rfl, rfl, ⟨part, _, hpart, ?_⟩, left, ?_⟩
  · rw [hbytes]
    decide +kernel
  · rw [hrun]
    exact congrArg (EStateM.Result.ok · left) (congrArg (List.take 5) hsamples)

end Reader

end Caf
