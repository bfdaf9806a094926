import Caf.Proofs.Container.Serving

/-!
# Frames, the cursor and reading

A frame is sought at a multiple of the width of a frame, and the frame in which the cursor is comes
from a division by the same width. Whatever has been done with a reader, seeking a frame and asking
for it agree, and a read from there hands out the samples from the start of the frame on. A last
frame that is cut off is read, but not counted.

## Main results

* `Reader.Serves.follow`: whatever is done with a reader, its region serves its samples;
* `Reader.Serves.goToFrame_eq`, `Reader.currentFrame_eq`: seeking a frame and asking for one;
* `Reader.frames_agree`: seeking, asking and reading agree.
-/

namespace Caf.Reader

variable {store : Store} {reader : Reader} {samples : Bytes} {fileLength : Nat}

/-! ## Runs -/

/-- A mild `event` leaves the samples of the region where they are. -/
theorem Serves.meet (hsound : reader.Sound fileLength) (hsmall : fileLength < 2 ^ 64)
    (h : reader.Serves samples store) {event : Event}
    (hevent : ∀ change, event = .change change → change.Mild) :
    reader.Serves samples (reader.meet store event) := by
  cases event with
  | change change => exact h.change (hevent change rfl)
  | call c =>
    have hconfines : reader.Confines (reader.meet store (.call c)) :=
      h.confines.meet hsound hsmall nofun
    exact h.of_still (keeps_call reader c store) hconfines

/-- A run of mild `events` leaves the samples of the region where they are. -/
theorem Serves.follow (hsound : reader.Sound fileLength) (hsmall : fileLength < 2 ^ 64)
    (h : reader.Serves samples store) {events : List Event}
    (hevents : ∀ change, .change change ∈ events → change.Mild) :
    reader.Serves samples (reader.follow store events) := by
  -- Each event starts from what the one before it has left, also where that failed.
  refine List.foldlRecOn events reader.meet h ?_
  intro current hcurrent event hmem
  apply hcurrent.meet hsound hsmall
  rintro change rfl
  exact hevents change hmem

/-! ## Seeking a frame and asking for one -/

/-- The frame in which the cursor is comes from the bytes that have been `passed`. -/
theorem currentFrame_eq (hsound : reader.Sound fileLength) (hseek : store.faults.seek = false) :
    reader.currentFrame store =
      .ok (reader.passed store / reader.stream.bytesPerFrame) store := by
  rw [currentFrame, Run.bind_of_ok (Store.run_of_ok (Store.position_eq hseek)),
    if_neg (Nat.ne_of_gt (bytesPerFrame_pos hsound))]
  rfl

/-- No more frames have been passed than there are. -/
theorem Serves.passed_div_le (hsound : reader.Sound fileLength)
    (h : reader.Serves samples store) :
    reader.passed store / reader.stream.bytesPerFrame ≤ reader.stream.frames := by
  rw [frames_eq hsound, ← h.length]
  exact Nat.div_le_div_right h.passed_le

/-- Seeking a `frame` that is there passes the frames in front of it. -/
theorem Serves.goToFrame_eq (hsound : reader.Sound fileLength) (h : reader.Serves samples store)
    {frame : Nat} (hframe : frame ≤ reader.stream.frames) :
    ∃ sought, reader.goToFrame frame store = .ok frame sought ∧
      reader.Serves samples sought ∧
      reader.passed sought = frame * reader.stream.bytesPerFrame := by
  have hdistance := mul_bytesPerFrame_le hsound hframe
  have hreach := h.reach
  have hsmall : fileLength < 2 ^ 64 := hsound.stop ▸ h.stop_lt
  have hseek := Store.seekTo_eq h.seek (Nat.le_trans (Nat.add_le_add_left hdistance _) hreach)
  let offset := reader.region.offset + frame * reader.stream.bytesPerFrame
  have hsought : reader.Confines (store.movedTo offset store.faults.pace) :=
    ⟨Nat.le_add_right .., Nat.add_le_add_left hdistance _⟩
  refine ⟨store.movedTo offset store.faults.pace, ?_, h.of_still rfl hsought, ?_⟩
  · rw [Reader.goToFrame_eq hsound hsmall hframe, Run.bind_of_ok (Store.run_of_ok hseek)]
    rfl
  · rw [passed, Store.movedTo_cursor, Nat.add_sub_cancel_left]

/-- Seeking (`seek_frame`), asking (`frame_position`) and reading (`read_raw`) agree about frames,
whatever has been done with `reader` of a container that can be read, and whatever has been appended
to it. The frames are the whole ones in the region. A frame can be sought when it is one of them or
right behind the last; any other is refused, and the cursor stays. The cursor is in the frame that
was sought, and a read hands out the samples from its start on, as many as it asks for and as there
are, and moves the cursor as far. The cursor is never in a frame behind those that can be sought. -/
theorem frames_agree {opened current : Store} (hread : store.Readable)
    (hreach : store.medium.reach < 2 ^ 64) (hopen : ofStore store = .ok reader opened)
    {events : List Event} (hevents : ∀ change, .change change ∈ events → change.Mild)
    (hcurrent : reader.follow opened events = current) :
    reader.stream.frames = reader.region.length / reader.stream.bytesPerFrame ∧
    (∀ frame, (∃ n left, reader.goToFrame frame current = .ok n left) ↔
      frame ≤ reader.stream.frames) ∧
    (∀ frame, reader.stream.frames < frame → reader.goToFrame frame current =
      .error (.badParameter (.frameBeyondEnd frame reader.stream.frames)) current) ∧
    (∀ frame, frame ≤ reader.stream.frames →
      ∃ sought, reader.goToFrame frame current = .ok frame sought ∧
        reader.currentFrame sought = .ok frame sought ∧
        ∀ want, ∃ part left, reader.read want sought = .ok part left ∧
          part.data.toList = ((store.content.drop reader.region.offset).take
            (min (frame * reader.stream.bytesPerFrame + want) reader.region.length)).drop
              (frame * reader.stream.bytesPerFrame) ∧
          reader.currentFrame left = .ok ((frame * reader.stream.bytesPerFrame + part.size) /
            reader.stream.bytesPerFrame) left) ∧
    ∃ frame, reader.currentFrame current = .ok frame current ∧ frame ≤ reader.stream.frames := by
  obtain ⟨hsound, -, hlength⟩ := sound_of_ofStore hopen
  have hsmall := Nat.lt_of_le_of_lt hlength hreach
  have hserves : reader.Serves (store.content.drop reader.region.offset) current :=
    hcurrent ▸ (Serves.of_ofStore hread hreach hopen).follow hsound hsmall hevents
  have hpos := bytesPerFrame_pos hsound
  refine ⟨frames_eq hsound, ?_, fun frame => goToFrame_of_beyond, ?_, _,
    currentFrame_eq hsound hserves.seek, hserves.passed_div_le hsound⟩
  · intro frame
    constructor
    · rintro ⟨n, left, hok⟩
      by_cases hbeyond : reader.stream.frames < frame
      case neg => exact Nat.le_of_not_lt hbeyond
      rw [goToFrame_of_beyond hbeyond] at hok
      cases hok
    · intro hframe
      obtain ⟨sought, hok, -, -⟩ := hserves.goToFrame_eq hsound hframe
      exact ⟨frame, sought, hok⟩
  · intro frame hframe
    obtain ⟨sought, hok, hthere, hpassed⟩ := hserves.goToFrame_eq hsound hframe
    refine ⟨sought, hok, ?_, ?_⟩
    -- What has been passed is a multiple of the width, so that dividing gives the frame back.
    · rw [currentFrame_eq hsound hthere.seek, hpassed, Nat.mul_div_cancel _ hpos]
    · intro want
      obtain ⟨part, pace, hok, hpart, hbehind⟩ := hthere.read_eq want
      refine ⟨part, _, hok, ?_, ?_⟩
      · rw [hpart, hpassed, List.drop_take, List.take_eq_take_iff, List.length_drop,
          hthere.length]
        omega
      · rw [currentFrame_eq hsound hbehind.seek, hthere.confines.passed_movedTo_add, hpassed]

/-- Seven bytes of two-byte samples are three frames and a half. After some reads, a digest and a
frame that is refused, frame two is sought on a slow medium, and the last three bytes are read from
there. -/
theorem frames_agree_of_half_frame :
    ∃ (store opened current : Store) (reader : Reader), ofStore store = .ok reader opened ∧
      reader.region = ⟨68, 7⟩ ∧ reader.stream.bytesPerFrame = 2 ∧
      reader.follow opened [.call (.read 3), .call .digest, .call (.goToFrame 9),
        .change (.faults { pace := [.interrupted, .short 0] })] = current ∧
      reader.goToFrame 4 current = .error (.badParameter (.frameBeyondEnd 4 3)) current ∧
      ∃ sought part left, reader.goToFrame 2 current = .ok 2 sought ∧
        reader.read 10 sought = .ok part left ∧ part.data.toList = [5, 6, 7] ∧
        reader.currentFrame left = .ok 3 left := by
  let description : Description := ⟨⟨0x40E5888000000000⟩, Description.lpcm, 0, 2, 1, 1, 16⟩
  let l : Layout :=
    ⟨1, 0, description, [], ⟨[], -1, 0, [1, 2, 3, 4, 5, 6, 7], by decide⟩, by decide⟩
  let store : Store := { bytes := ⟨l.toBytes.toArray⟩ }
  have hlength : store.bytes.size = 75 := l.length_toBytes
  have hread : store.Readable :=
    .of_memory _ (Nat.lt_of_le_of_lt (Nat.le_of_eq hlength) (by decide))
  have hdescribes : l.description.Describes 44100 .pcm16 := ⟨by decide, by decide, by decide⟩
  obtain ⟨pace, hopen⟩ := ofStore_of_describes hread rfl hdescribes
  have hsamples : store.content.drop 68 = [1, 2, 3, 4, 5, 6, 7] := l.drop_start
  let events : List Event := [.call (.read 3), .call .digest, .call (.goToFrame 9),
    .change (.faults { pace := [.interrupted, .short 0] })]
  have hevents : ∀ change, .change change ∈ events → change.Mild := by
    simp [events, Store.Change.Mild]
  obtain ⟨-, -, hbeyond, hthere, -⟩ := frames_agree hread (by decide) hopen hevents rfl
  have hwidth : (l.reader 44100 .pcm16).stream.bytesPerFrame = 2 := rfl
  have hframes : (l.reader 44100 .pcm16).stream.frames = 3 := by decide
  rw [hframes] at hbeyond hthere
  rw [hwidth] at hthere
  obtain ⟨sought, hsought, -, hall⟩ := hthere 2 (by decide)
  obtain ⟨part, left, hpart, hbytes, hframe⟩ := hall 10
  have hlast : part.data.toList = [5, 6, 7] := by
    rw [hbytes]
    exact congrArg (fun bytes => (bytes.take 7).drop 4) hsamples
  have hsize : part.size = 3 := by
    rw [← ByteArray.size_data, ← Array.length_toList, hlast]
    rfl
  rw [hsize] at hframe
  exact ⟨store, _, _, _, hopen, rfl, hwidth, rfl, hbeyond 4 (by decide), sought, part, left,
    hsought, hpart, hlast, hframe⟩

end Caf.Reader
