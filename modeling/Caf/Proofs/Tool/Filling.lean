import Caf.Proofs.Container.Roundtrip
import Caf.Proofs.Desk.Keeping
import Caf.Proofs.Tool.Refusing

/-!
# Files of silent frames

A new file is filled block by block. One block of zero bytes is made, as long as the longest piece
that will be written, and every piece is cut from its front. The invariant of the loop is that of
the writer: the ledger has all frames that are no longer to be written. Since the whole file fits
the medium, no length on the way is too long for a number, and no piece is longer than the block.
What is left is one header for the frames that were asked for, and their bytes, all of them zero.

## Main results

* `Tool.writePiece_of_holds`, `Tool.writeBlocks_of_holds`: a piece, and the loop over the pieces;
* `Tool.create_eq`: what filling a new file leaves in the directory;
* `Tool.runCommand_create`: the file that the command makes, and what is read from it.
-/

namespace Caf

/-! ## Zero bytes -/

@[simp]
theorem Store.toList_zeros (n : Nat) : (zeros n).data.toList = List.replicate n 0 := by
  simp [zeros]

/-- The first `count` of zero bytes are zero bytes. -/
theorem Tool.firstBytes_zeros {count length : Nat} (h : count ≤ length) :
    firstBytes (Store.zeros length) count = .ok (Store.zeros count) := by
  have hsize : count ≤ (Store.zeros length).size := by
    simpa [Store.zeros, ByteArray.size] using h
  rw [firstBytes, if_pos hsize]
  congr 1
  apply ByteArray.ext
  simp [Store.zeros, ByteArray.data_extract, h]

namespace Ledger

/-- Nothing more changes nothing. -/
theorem append_nil (ledger : Ledger) : ledger.append [] = ledger := by
  simp only [append, List.append_nil]

/-- Bytes can be appended in parts, `front` and then `back`. -/
theorem append_append (ledger : Ledger) (front back : Bytes) :
    (ledger.append front).append back = ledger.append (front ++ back) := by
  simp only [append, List.append_assoc]

end Ledger

namespace Tool

open Writer

variable {writer : Writer} {d : Description} {origin : Store} {ledger : Ledger} {capacity : Nat}
variable {width frames : Nat}

theorem bytesOf_eq (h : width * frames < 2 ^ 64) : bytesOf width frames = .ok (width * frames) := by
  have hproduct : multiplyWithin 64 width frames = .ok (width * frames) := if_pos h
  rw [bytesOf, hproduct]

/-! ## Pieces and blocks -/

/-- A piece that is no longer than the block appends its `frames`. -/
theorem writePiece_of_holds (h : writer.Holds d origin ledger)
    (haccepting : origin.Accepting capacity) {length : Nat} (hblock : width * frames ≤ length)
    (hroom : headerSize + (ledger.samples.length + width * frames) ≤ capacity) :
    ∃ writer', writePiece (Store.zeros length) width frames writer = .ok () writer' ∧
      writer'.Holds d origin (ledger.append (List.replicate (width * frames) 0)) := by
  have hsmall : width * frames < 2 ^ 64 := by
    have := haccepting.capacity_lt
    omega
  have hsamples : headerSize +
      (ledger.append (Store.zeros (width * frames)).data.toList).samples.length ≤ capacity := by
    simpa [Ledger.append] using hroom
  obtain ⟨writer', hwrite, hholds⟩ := write_of_holds h haccepting _ hsamples
  rw [Store.toList_zeros] at hholds
  refine ⟨writer', ?_, hholds⟩
  simp only [writePiece, bytesOf_eq hsmall, firstBytes_zeros hblock]
  exact hwrite

/-- Writing the `remaining` frames appends all of them. The block has to be long enough for the
first piece, which is the longest one. -/
theorem writeBlocks_of_holds (h : writer.Holds d origin ledger)
    (haccepting : origin.Accepting capacity) {length remaining : Nat}
    (hblock : width * min remaining blockFrames ≤ length)
    (hroom : headerSize + (ledger.samples.length + width * remaining) ≤ capacity) :
    ∃ writer', writeBlocks (Store.zeros length) width remaining writer = .ok () writer' ∧
      writer'.Holds d origin (ledger.append (List.replicate (width * remaining) 0)) := by
  -- The ledger has the frames that no longer remain; the block stays the same all the way.
  induction remaining using Nat.strongRecOn generalizing writer ledger with
  | ind remaining ih =>
    rw [writeBlocks]
    by_cases hdone : remaining = 0
    case pos =>
      subst hdone
      exact ⟨writer, if_pos rfl, by rwa [Nat.mul_zero, List.replicate_zero, Ledger.append_nil]⟩
    -- One piece is written, and fewer frames remain.
    have hpiece_pos : 0 < min remaining blockFrames := by
      simp only [blockFrames]
      omega
    have hpiece_le : min remaining blockFrames ≤ remaining := Nat.min_le_left ..
    have hsplit : width * remaining =
        width * min remaining blockFrames + width * (remaining - min remaining blockFrames) := by
      rw [← Nat.mul_add, Nat.add_sub_cancel' hpiece_le]
    obtain ⟨writer₁, hpiece, hholds₁⟩ :=
      writePiece_of_holds h haccepting hblock (by omega)
    -- No later piece is longer.
    have hblock₁ : width * min (remaining - min remaining blockFrames) blockFrames ≤ length :=
      Nat.le_trans (Nat.mul_le_mul_left width (by omega)) hblock
    have hroom₁ : headerSize +
        ((ledger.append (List.replicate (width * min remaining blockFrames) 0)).samples.length +
          width * (remaining - min remaining blockFrames)) ≤ capacity := by
      simp only [Ledger.append, List.length_append, List.length_replicate]
      omega
    obtain ⟨writer₂, hrest, hholds₂⟩ :=
      ih (remaining - min remaining blockFrames) (by omega) hholds₁ hblock₁ hroom₁
    refine ⟨writer₂, ?_, ?_⟩
    · rw [if_neg hdone]
      simp only [hpiece, hrest]
    · rw [hsplit, ← List.replicate_append_replicate, ← Ledger.append_append]
      exact hholds₂

/-- Silence appends as many `frames` as were asked for. -/
theorem writeSilence_of_holds (h : writer.Holds d origin ledger)
    (haccepting : origin.Accepting capacity) (hwidth : d.bytesPerPacket.toNat = width)
    (hroom : headerSize + (ledger.samples.length + width * frames) ≤ capacity) :
    ∃ writer', writeSilence frames writer = .ok () writer' ∧
      writer'.Holds d origin (ledger.append (List.replicate (width * frames) 0)) := by
  obtain ⟨hframe, hstream⟩ := Stream.bytesPerFrame_of_describe h.describe
  rw [hwidth] at hstream
  rw [hstream] at hframe
  -- The block has a frame even where there is nothing to write.
  have hlongest : width * max frames 1 < 2 ^ 64 := by
    have hlt := haccepting.capacity_lt
    rcases Nat.le_total frames 1 with hone | hmany
    · rw [Nat.max_eq_right hone, Nat.mul_one]
      omega
    · rw [Nat.max_eq_left hmany]
      omega
  have hsmall : width * min blockFrames (max frames 1) < 2 ^ 64 :=
    Nat.lt_of_le_of_lt (Nat.mul_le_mul_left width (Nat.min_le_right ..)) hlongest
  have hblock : width * min frames blockFrames ≤ width * min blockFrames (max frames 1) :=
    Nat.mul_le_mul_left width (by omega)
  obtain ⟨writer', hblocks, hholds⟩ := writeBlocks_of_holds h haccepting hblock hroom
  refine ⟨writer', ?_, hholds⟩
  simp only [writeSilence, hstream, bytesOf_eq hsmall, hblocks]

/-! ## Files -/

variable {directory : Directory} {options : NewFile} {request : StreamRequest}
variable {file : List String} {old : ByteArray}

/-- What the tool has made of its `options`, when it makes something of them. -/
theorem streamRequest_eq_ok_iff :
    streamRequest options = .ok request ↔
      Encoding.ofName options.encoding = .ok request.encoding ∧
      ByteOrderRequest.ofName options.order = .ok request.order ∧
      request.channels = options.channels ∧ request.sampleRate = options.sampleRate ∧
      request.check = .ok () := by
  -- The cases follow the order of the lookups: the encoding, the byte order, and then the numbers.
  rw [streamRequest]
  cases Encoding.ofName options.encoding with
  | error e => simp
  | ok encoding =>
    cases ByteOrderRequest.ofName options.order with
    | error e => simp
    | ok order =>
      obtain ⟨encoding', channels, sampleRate, order'⟩ := request
      simp only [Except.ok.injEq]
      constructor
      · intro h
        split at h
        · cases h
        · rename_i hcheck
          cases h
          exact ⟨rfl, rfl, rfl, rfl, hcheck⟩
      · rintro ⟨rfl, rfl, rfl, rfl, hcheck⟩
        simp only [hcheck]

/-- Filling a new file leaves it with one header and its silent frames, and no handle on it. -/
theorem create_eq (hcheck : request.check = .ok ())
    (hopen : directory.openToWrite options.path = .ok (file, old))
    (hfits : headerSize + request.stream.bytesPerFrame * options.frames < 2 ^ 63) :
    ∃ (summary : Stream.Summary) (store : Store),
      create options request { directory } =
        (.ok summary, Desk.keep directory file (.idle store)) ∧
      store.content = headerBytes request.stream.description
        (Int64.ofNat (request.stream.bytesPerFrame * options.frames)) ++
          List.replicate (request.stream.bytesPerFrame * options.frames) 0 := by
  have haccepting := Directory.accepting_storeOf ByteArray.empty hfits
  -- The file is empty when the stream is started in it, whatever it held.
  obtain ⟨writer₀, hcreate, hholds₀⟩ :=
    create_holds hcheck rfl (Nat.zero_le _) haccepting (Nat.le_add_right ..)
  have hstarted : ({ directory } : Desk).create options.path request =
      (.ok (), Desk.keep directory file (.writing writer₀)) := by
    rw [Desk.create, Desk.release_of_closed rfl, hcheck]
    simp only [hopen]
    rw [Desk.start, Bench.start, hcreate]
  have hwidth : request.stream.description.bytesPerPacket.toNat = request.stream.bytesPerFrame :=
    (Stream.bytesPerFrame_of_describe (StreamRequest.describe_eq hcheck)).2.symm
  have hroom : headerSize + (Ledger.empty.samples.length +
      request.stream.bytesPerFrame * options.frames) ≤
        headerSize + request.stream.bytesPerFrame * options.frames := by
    simp [Ledger.empty]
  obtain ⟨writer₁, hsilence, hholds₁⟩ := writeSilence_of_holds hholds₀ haccepting hwidth hroom
  have hfilled : fillWithSilence options.frames writer₀ = .ok writer₁.summary writer₁ :=
    Run.bind_of_ok hsilence
  obtain ⟨writer₂, hclose, -, hcontent⟩ :=
    close_of_holds hholds₁ haccepting (by simp [Ledger.empty, Ledger.append])
  refine ⟨writer₁.summary, writer₂.store, ?_, ?_⟩
  -- Each action on the handle sees the writer that the one before has kept.
  · simp only [create, hstarted, Desk.onHandle_keep, Bench.onWriter, hfilled, Bench.outcome,
      Bench.close, hclose]
  · simpa [Ledger.empty, Ledger.append, Ledger.declared] using hcontent

/-- A file of silent frames is made as it was asked for. Take any `options` that the tool accepts,
with any number of frames that a file can hold, and a path that can be written. The command
succeeds, so that no length on the way has been too long and no piece longer than its block. The
`file` has a header that declares the bytes of the frames, and as many bytes behind it, all of them
zero. Every other file is as it was. The file is opened as a stream of the encoding, channels, rate
and byte order of `options`, with the number of frames that was asked for and no byte left over. -/
theorem runCommand_create {size : Nat} (hrequest : streamRequest options = .ok request)
    (hopen : directory.openToWrite options.path = .ok (file, old))
    (hsize : size = options.frames * (request.encoding.bytesPerSample * request.channels.toNat))
    (hfits : headerSize + size < 2 ^ 63) (colour : Bool) :
    ∃ (outcome : Outcome) (declared : Int64) (store opened : Store) (reader : Reader),
      runCommand colour directory (.create options) = outcome ∧
      outcome.exit = 0 ∧ outcome.failure = none ∧
      (∀ other, other ≠ file → outcome.directory.find? other = directory.find? other) ∧
      outcome.directory.openToRead options.path = .ok (file, store) ∧
      store.content = headerBytes request.stream.description declared ++ List.replicate size 0 ∧
      declared.toInt = size ∧
      Reader.ofStore store = .ok reader opened ∧
      reader.stream.frames = options.frames ∧
      reader.stream.length = options.frames * reader.stream.bytesPerFrame ∧
      Encoding.ofName options.encoding = .ok reader.stream.encoding ∧
      reader.stream.channels = options.channels ∧
      reader.stream.sampleRate = options.sampleRate ∧
      ∃ order, ByteOrderRequest.ofName options.order = .ok order ∧
        reader.stream.order = order.chosen := by
  obtain ⟨hencoding, horder, hchannels, hrate, hcheck⟩ := streamRequest_eq_ok_iff.1 hrequest
  have hpos := StreamRequest.bytesPerFrame_pos hcheck
  obtain rfl : size = request.stream.bytesPerFrame * options.frames :=
    hsize.trans (Nat.mul_comm ..)
  obtain ⟨summary, store, hcreate, hcontent⟩ := create_eq hcheck hopen hfits
  have hrun : runCommand colour directory (.create options) =
      .success (directory.put file store.bytes)
        (Report.created colour options.path options.frames summary) := by
    rw [runCommand, hrequest]
    simp only [hcreate]
    rfl
  -- The file is a store of its own, with the bytes that the writer has left.
  let left : Store := Directory.storeOf store.bytes
  have hleft : left.content = _ := hcontent
  have hshort : store.bytes.size < 2 ^ 63 := by
    rw [Store.size_of_header hcontent, List.length_replicate]
    exact hfits
  obtain ⟨reader, pace, hread, hstream, -⟩ :=
    Reader.ofStore_of_written (Directory.readable_storeOf hshort) hcheck hleft
  rw [List.length_replicate] at hstream
  have hframes : reader.stream.frames = options.frames := by
    have hwhole : reader.stream.frames =
        request.stream.bytesPerFrame * options.frames / request.stream.bytesPerFrame := by
      rw [hstream]
      exact if_neg (Nat.ne_of_gt hpos)
    rw [hwhole, Nat.mul_div_cancel_left _ hpos]
  have hdeclared := Int64.toInt_ofNat_of_lt (Nat.lt_of_le_of_lt (Nat.le_add_left ..) hfits)
  refine ⟨_, _, left, _, reader, hrun, rfl, rfl, ?_, Directory.openToRead_put hopen store.bytes,
    hleft, hdeclared, hread, hframes, ?_, ?_, ?_, ?_, request.order, horder, ?_⟩
  · exact fun other hne => Directory.find?_put_of_ne _ _ hne
  all_goals rw [hstream]
  · exact Nat.mul_comm ..
  · exact hencoding
  · exact hchannels
  · exact hrate
  · rfl

/-- Five thousand frames of three 24-bit samples, which are two blocks, take the place of a file
that was there. -/
theorem runCommand_create_pcm24 :
    ∃ (directory : Directory) (outcome : Outcome) (store opened : Store) (reader : Reader),
      directory.files.length = 2 ∧
      runCommand false directory (.create
        { path := "new.caf", encoding := "S24", channels := 3, frames := 5000,
          order := "big" }) = outcome ∧
      outcome.exit = 0 ∧
      outcome.directory.openToRead "new.caf" = .ok (["new.caf"], store) ∧
      store.content.length = 45068 ∧ Reader.ofStore store = .ok reader opened ∧
      reader.stream.frames = 5000 := by
  let directory : Directory :=
    { files := [⟨["new.caf"], ⟨#[1, 2, 3]⟩⟩, ⟨["out", "old.caf"], ⟨#[4]⟩⟩] }
  let options : NewFile :=
    { path := "new.caf", encoding := "S24", channels := 3, frames := 5000, order := "big" }
  have hencoding : Encoding.ofName "S24" = .ok .pcm24 := rfl
  have horder : ByteOrderRequest.ofName "big" = .ok .big := rfl
  have hrequest : streamRequest options = .ok ⟨.pcm24, 3, 44100, .big⟩ :=
    streamRequest_eq_ok_iff.2 ⟨hencoding, horder, rfl, rfl, rfl⟩
  have hopen : directory.openToWrite "new.caf" = .ok (["new.caf"], ⟨#[1, 2, 3]⟩) := rfl
  have hsize : 45000 = options.frames * (Encoding.pcm24.bytesPerSample * (3 : UInt32).toNat) := by
    decide
  obtain ⟨outcome, declared, store, opened, reader, hrun, hexit, -, -, hfile, hcontent, -, hread,
    hframes, -⟩ := runCommand_create hrequest hopen hsize (by decide) false
  refine ⟨directory, outcome, store, opened, reader, rfl, hrun, hexit, hfile, ?_, hread, hframes⟩
  rw [hcontent, List.length_append, length_headerBytes, List.length_replicate]
  decide

end Tool

end Caf
