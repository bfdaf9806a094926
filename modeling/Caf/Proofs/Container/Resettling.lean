import Caf.Proofs.Container.Founding

/-!
# Settling twice

Settling (`Writer.settle`, or `finalize`) brings the header up to date with the store, whatever has
become of the store in the meantime: bytes may have been appended, replaced or cut off, down to
nothing, and the cursor may stand anywhere. Nothing behind the header changes, and what is declared
is what is there, up to the end that was set.

The length is measured before the header is written, so a store that was cut off inside the header
is longer the second time. The samples are still none, so settling again finds the same length and
writes the same bytes: it changes nothing.

## Main definitions

* `Writer.Settled`: what settling has done to a writer.

## Main results

* `Writer.settled_of_founded`: what settling does to a writer;
* `Writer.Settled.again`: settling a second time changes nothing;
* `Writer.settle_settle`: both, for every writer.
-/

namespace Caf

namespace Writer

variable {writer left : Writer}

/-- The number of sample bytes that settling finds: those between the header and `samplesEnd`, which
is the end of the samples as it was set, if the store reaches that far. -/
def settledLength (writer : Writer) : Nat :=
  writer.measuredStop - headerSize

/-- The header that settling writes. -/
def settledHeader (writer : Writer) : Bytes :=
  headerBytes writer.stream.description (Int64.ofNat writer.settledLength)

theorem length_settledHeader (writer : Writer) : writer.settledHeader.length = headerSize :=
  length_headerBytes _ _

/-- What settling `writer` has done: it is `left` now. -/
structure Settled (writer left : Writer) : Prop where
  /-- The header is new and everything behind it is as it was. -/
  content : left.store.content = writer.settledHeader ++ writer.store.content.drop headerSize
  /-- The cursor is where it was, or at the first sample if it was inside the header. -/
  cursor : left.store.cursor = max writer.store.cursor headerSize
  /-- The medium is the same, with the same faults. -/
  alike : writer.store.Alike left.store
  /-- Besides the length, the draft is all that is new about the writer. -/
  writer_eq : left = { writer with
    store := left.store
    stream := { writer.stream with length := writer.settledLength }
    draft := ⟨writer.settledHeader, some writer.stream.description⟩ }

/-- Settling succeeds, on whatever the store has become. -/
theorem settled_of_founded (hfounded : writer.Founded) (hintact : writer.broken = false)
    (hopen : writer.store.Open) : ∃ left, settle writer = .ok () left ∧ writer.Settled left := by
  obtain ⟨store, hsettle, hcontent, hcursor, halike⟩ :=
    settle_of_open hintact hfounded.describe hfounded.getD_start hopen
  refine ⟨_, hsettle, ?_, hcursor, halike, ?_⟩
  · refine hcontent.trans ?_
    rw [Bytes.splice, List.take_zero, List.nil_append, length_headerBytes, Nat.zero_add]
    rfl
  -- The place of the samples was known before.
  · have hplace : ({ writer.stream with start := some headerSize } : Stream) = writer.stream := by
      rw [← hfounded.start]
    have hmeasured : writer.measured.stream =
        { writer.stream with length := writer.settledLength } := by
      rw [measured, offset_of_start hfounded.start]
      rfl
    rw [withHeader, hmeasured, ← hplace]
    rfl

namespace Settled

variable (h : writer.Settled left)
include h

theorem stream_eq : left.stream = { writer.stream with length := writer.settledLength } := by
  rw [h.writer_eq]

theorem samplesEnd_eq : left.samplesEnd = writer.samplesEnd := by
  rw [h.writer_eq]

theorem broken_eq : left.broken = writer.broken := by
  rw [h.writer_eq]

theorem size : left.store.bytes.size = max writer.store.bytes.size headerSize := by
  rw [← Store.length_content, h.content, List.length_append, length_settledHeader, List.length_drop,
    Store.length_content]
  omega

theorem founded (hfounded : writer.Founded) : left.Founded := by
  rw [Founded, h.stream_eq]
  exact hfounded.withLength _

theorem opened (hopen : writer.store.Open) : left.store.Open := by
  have hheader := hopen.accepting.reach
  refine ⟨hopen.accepting.of_alike h.alike, ?_, ?_, ?_⟩
  · rw [h.cursor, h.alike.medium]
    exact Nat.max_le.2 ⟨hopen.cursor, hheader⟩
  · rw [h.size, h.alike.medium]
    exact Nat.max_le.2 ⟨hopen.size, hheader⟩
  · rw [h.size]
    exact Nat.max_lt.2 ⟨hopen.size_lt, hopen.accepting.capacity_lt⟩

/-- The header may have made the store longer, but that adds no samples: `settledLength` is the same
again. -/
theorem settledLength_eq : left.settledLength = writer.settledLength := by
  have hsize := h.size
  unfold settledLength measuredStop
  rw [h.samplesEnd_eq]
  cases writer.samplesEnd with
  | none =>
    show left.store.bytes.size - headerSize = writer.store.bytes.size - headerSize
    omega
  | some mark =>
    -- A mark inside the header means that there are no samples, on either side of the end.
    show (if mark < left.store.bytes.size then mark else left.store.bytes.size) - headerSize =
      (if mark < writer.store.bytes.size then mark else writer.store.bytes.size) - headerSize
    split <;> split <;> omega

theorem settledHeader_eq : left.settledHeader = writer.settledHeader := by
  have hdescription : left.stream.description = writer.stream.description := by
    rw [h.stream_eq]
    rfl
  rw [settledHeader, settledHeader, hdescription, h.settledLength_eq]

/-- What has been settled is settled again without a change: the same bytes are written over
themselves, and the cursor is behind the header already. -/
theorem again {left' : Writer} (h' : left.Settled left') :
    ∃ pace, left' = { left with store := left.store.movedTo left.store.cursor pace } := by
  have hcontent : left'.store.content = left.store.content := by
    rw [h'.content, h.settledHeader_eq, h.content, List.drop_left' writer.length_settledHeader]
  have hcursor : left'.store.cursor = left.store.cursor := by
    rw [h'.cursor, h.cursor]
    omega
  obtain ⟨pace, hstore⟩ := h'.alike.eq_movedTo hcontent
  rw [hcursor] at hstore
  have hstream : ({ left.stream with length := left.settledLength } : Stream) = left.stream := by
    rw [h.settledLength_eq, h.stream_eq]
  have hdraft : ⟨left.settledHeader, some left.stream.description⟩ = left.draft := by
    rw [h.settledHeader_eq, h.stream_eq, h.writer_eq]
    rfl
  refine ⟨pace, ?_⟩
  rw [h'.writer_eq, hstore, hstream, hdraft]

end Settled

/-- Where transfers happen in one piece, they do so after `settle`, too. -/
theorem pace_of_settle (hintact : writer.broken = false) (h : settle writer = .ok () left)
    (hpace : writer.store.faults.pace = []) : left.store.faults.pace = [] := by
  rw [settle_eq_breaking hintact, breaking_eq_ok_iff] at h
  obtain ⟨storeLength, -, -, hput, -⟩ := putMeasuredHeader_eq_ok_iff.1 h
  obtain ⟨header, stream, store, store', -, -, -, hwrite, -, hback, rfl⟩ :=
    putHeader_eq_ok_iff.1 hput
  -- The header is the only transfer.
  have hstore : store.faults.pace = [] := Store.pace_of_writeAll hwrite hpace
  have hmoved : store' = store.movedTo _ store.faults.pace := Store.seekTo_ok hback
  rw [withPlace, hmoved]
  exact hstore

/-- Settling (`finalize`) works for every `writer` that is not broken, over a store without faults,
wherever that store ends now and wherever its cursor is. The header then declares the bytes between
itself and the end of the samples, or none where the store was cut off before them. What is behind
the header is left alone, and the cursor is where it was or at the first sample. Settling again
changes nothing, apart from the turns that a medium has which moves the header in several pieces. -/
theorem settle_settle (hwriter : writer.Underway) (hintact : writer.broken = false)
    (hopen : writer.store.Open) :
    writer.stream.start = some headerSize ∧
      ∃ left, settle writer = .ok () left ∧
        left.stream = { writer.stream with length := writer.measuredStop - headerSize } ∧
        left.store.content =
          headerBytes writer.stream.description (Int64.ofNat (writer.measuredStop - headerSize)) ++
            writer.store.content.drop headerSize ∧
        HeaderReads left.store.content writer.stream.description
          (Int64.ofNat (writer.measuredStop - headerSize)) (writer.store.content.drop headerSize) ∧
        left.store.bytes.size = max writer.store.bytes.size headerSize ∧
        left.store.cursor = max writer.store.cursor headerSize ∧
        (∃ pace, settle left =
          .ok () { left with store := left.store.movedTo left.store.cursor pace }) ∧
        (writer.store.faults.pace = [] → settle left = .ok () left) := by
  have hfounded := hwriter.founded
  obtain ⟨left, hsettle, hsettled⟩ := settled_of_founded hfounded hintact hopen
  -- The writer that is left can be settled for the same reasons.
  have hintact' := hsettled.broken_eq.trans hintact
  obtain ⟨left', hagain, hsettled'⟩ :=
    settled_of_founded (hsettled.founded hfounded) hintact' (hsettled.opened hopen)
  obtain ⟨pace, hsame⟩ := hsettled.again hsettled'
  rw [hsame] at hagain
  refine ⟨hfounded.start, left, hsettle, hsettled.stream_eq, hsettled.content,
    hsettled.content ▸ headerReads_append .., hsettled.size, hsettled.cursor, ⟨pace, hagain⟩, ?_⟩
  intro hpace
  have hcalm := pace_of_settle hintact hsettle hpace
  -- There were no turns before, and there are none afterwards.
  have hnone : pace = left.store.faults.pace := by
    rw [hcalm]
    exact pace_of_settle hintact' hagain hcalm
  rw [hagain, hnone]
  rfl

/-- A stream of two sample bytes, with another byte behind their end, is cut off inside its header
while the cursor is there, too. Settling makes a header without samples, and then there is nothing
left to do. -/
theorem settle_settle_of_cut :
    ∃ writer : Writer, writer.Underway ∧ writer.store.bytes.size = 30 ∧ writer.store.cursor = 5 ∧
      writer.samplesEnd = some 70 ∧
      ∃ left, settle writer = .ok () left ∧ left.stream.length = 0 ∧
        left.store.bytes.size = headerSize ∧ left.store.cursor = headerSize ∧
        settle left = .ok () left := by
  let request : StreamRequest := .mono .pcm16 44100
  let events : List Event := [.call (.write ⟨#[1, 2]⟩), .call .endSamples, .call (.write ⟨#[3]⟩),
    .change (.truncate 30), .change (.moveCursor 5)]
  obtain ⟨started, store, hcreate, hintact, hmedium, hfaults, hsize, hcursor, hmark⟩ :
      ∃ started store, create request { bytes := .empty } = .ok started store ∧
        (started.follow events).broken = false ∧
        (started.follow events).store.medium = .memory ∧
        (started.follow events).store.faults = .none ∧
        (started.follow events).store.bytes.size = 30 ∧
        (started.follow events).store.cursor = 5 ∧
        (started.follow events).samplesEnd = some 70 := by decide +kernel
  have hwriter : (started.follow events).Underway :=
    ⟨started, _, events, ⟨request, store, .inl hcreate⟩, rfl⟩
  generalize started.follow events = writer at *
  -- Memory without faults takes a header and can be measured.
  have halike : Store.Alike { bytes := writer.store.bytes } writer.store := ⟨hmedium, [], hfaults⟩
  have haccepting := (Store.Accepting.of_memory writer.store.bytes (Nat.le_refl _)).of_alike halike
  have hopen : writer.store.Open := by
    apply haccepting.opens (by decide)
    · rw [hcursor]
      decide
    · rw [hsize]
      decide
  obtain ⟨-, left, hsettle, hstream, -, -, hlength, hback, -, hagain⟩ :=
    settle_settle hwriter hintact hopen
  refine ⟨writer, hwriter, hsize, hcursor, hmark, left, hsettle, ?_, ?_, ?_, hagain ?_⟩
  · rw [hstream, measuredStop, hmark, hsize]
    rfl
  · rw [hlength, hsize]
    rfl
  · rw [hback, hcursor]
    rfl
  · rw [hfaults]
    rfl

end Writer

end Caf
