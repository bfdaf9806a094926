import Caf.Proofs.Container.Draining
import Caf.Proofs.Container.Ledger
import Caf.Proofs.Container.Opening
import Caf.Proofs.Sample.Rate

/-!
# What is written is read back

A session leaves a container whose description makes sense, so the store can be opened again. What
the reader knows is what was asked for, whatever size the header declares, and reading to the end
hands out the bytes that were written.

## Main definitions

* `Layout.written`: the container with a header that is written here.

## Main results

* `Stream.describes`: the description of a stream makes sense, and means the stream;
* `Reader.ofStore_of_session`: a session is read back.
-/

namespace Caf

/-- The container that has a header which is written here for `d` and a size of `declared`, and
`samples` behind it. -/
def Layout.written (d : Description) (declared : Int64) (samples : Bytes) : Layout where
  version := formatVersion
  flags := 0
  description := d
  surplus := []
  body := ⟨[], declared, editCount, samples, nofun⟩
  length_lt := by decide

/-- The bytes of the container `written` are the header that is written, and the samples. -/
theorem Layout.toBytes_written (d : Description) (declared : Int64) (samples : Bytes) :
    (written d declared samples).toBytes = headerBytes d declared ++ samples := by
  rw [toBytes_eq, Body.toBytes_eq]
  simp only [written, fileHeader, descriptionHeader, headerBytes, FileHeader.standard,
    List.length_nil, Nat.add_zero, List.flatMap_nil, List.nil_append, List.append_assoc]

/-- The description of a `stream` with a rate, with channels, and with frames that fit their field
makes sense, and means the stream. -/
theorem Stream.describes {stream : Stream} (hrate : stream.sampleRate ≠ 0)
    (hchannels : stream.channels ≠ 0) (hframe : stream.bytesPerFrame < 2 ^ 32) :
    stream.description.Describes stream.sampleRate stream.encoding :=
  ⟨Header.wholeRate?_ofNat hrate, hchannels, encoding?_description hframe⟩

namespace Reader

variable {store : Store}

/-- A store with a header for `stream` and `samples` behind it is opened as that stream, with as
many samples as there are. -/
theorem ofStore_of_stream (hread : store.Readable) {stream : Stream}
    (hdescribes : stream.description.Describes stream.sampleRate stream.encoding)
    {declared : Int64} {samples : Bytes}
    (hcontent : store.content = headerBytes stream.description declared ++ samples) :
    ∃ reader pace, ofStore store = .ok reader (store.movedTo headerSize pace) ∧
      reader.stream = { stream with start := some headerSize, length := samples.length } ∧
      reader.region = ⟨headerSize, samples.length⟩ ∧ reader.journal.warned = false := by
  -- The declared size is one of those that a reader does not look at.
  rw [← Layout.toBytes_written] at hcontent
  obtain ⟨pace, hopen⟩ := ofStore_of_describes hread hcontent hdescribes
  have horder : (Layout.written stream.description declared samples).description.byteOrder =
      stream.order := Stream.byteOrder_description stream
  refine ⟨_, pace, hopen, ?_, rfl, Layout.warned_journal _⟩
  show Layout.stream _ _ _ = _
  rw [Layout.stream, horder]
  rfl

/-- A store with a header for `request` and `samples` behind it is opened as the stream of the
request. -/
theorem ofStore_of_written (hread : store.Readable) {request : StreamRequest}
    (hrequest : request.check = .ok ()) {declared : Int64} {samples : Bytes}
    (hcontent : store.content = headerBytes request.stream.description declared ++ samples) :
    ∃ reader pace, ofStore store = .ok reader (store.movedTo headerSize pace) ∧
      reader.stream =
        { request.stream with start := some headerSize, length := samples.length } ∧
      reader.region = ⟨headerSize, samples.length⟩ ∧ reader.journal.warned = false := by
  obtain ⟨hchannels, -, hrate⟩ := StreamRequest.check_eq_ok_iff.1 hrequest
  have hframe : request.stream.bytesPerFrame < 2 ^ 32 :=
    Nat.lt_of_le_of_lt (StreamRequest.bytesPerFrame_le hrequest) (by decide)
  exact ofStore_of_stream hread (Stream.describes hrate hchannels hframe) hcontent

/-- From behind the header, reading to the end hands out `samples`. -/
theorem drain_of_written (hread : store.Readable) (hsize : store.bytes.size < 2 ^ 64)
    {d : Description} {declared : Int64} {samples : Bytes}
    (hcontent : store.content = headerBytes d declared ++ samples) {reader : Reader}
    (hregion : reader.region = ⟨headerSize, samples.length⟩) (pace : List Turn) {wants : List Nat}
    (hwants : ∀ want ∈ wants, 0 < want) :
    ∃ result store', reader.drain wants (store.movedTo headerSize pace) = .ok result store' ∧
      (result = some samples ∨ result = none ∧ wants.length ≤ samples.length) := by
  have hlength := Store.size_of_header hcontent
  have hheader : headerSize ≤ store.medium.reach := Nat.le_trans (by omega) hread.size
  have hstart : reader.region.offset ≤ headerSize := Nat.le_of_eq (by rw [hregion])
  have hend : reader.region.offset + reader.region.length = store.bytes.size := by
    rw [hregion, hlength]
  have hdrain := drain_eq (hread.movedTo hheader pace) hsize hstart hend hwants
  rwa [Store.movedTo_content, Store.movedTo_cursor, hcontent,
    List.drop_left' (length_headerBytes _ _), Store.movedTo_bytes, hlength,
    Nat.add_sub_cancel_left] at hdrain

/-- What a session of `calls` writes is read back: the stream is the one that `request` asked for,
with its samples behind the header, there is no warning, and reading to the end hands out every byte
that was written. -/
theorem ofStore_of_session {store : Store} (request : StreamRequest) (calls : List Writer.Call)
    (hrequest : request.check = .ok ()) (hempty : store.bytes.size = 0)
    (hcursor : store.cursor ≤ store.medium.reach) (hbad : store.faults.bad = none)
    (haccepting : store.Accepting
      (headerSize + (calls.flatMap Writer.Call.samples).length)) :
    ∃ writer answers writer' reader opened,
      Writer.create request store = .ok writer writer.store ∧
      Writer.run calls writer = .ok answers writer' ∧ writer'.close.1 = .ok () ∧
      writer'.release = writer'.close.2 ∧ ofStore writer'.close.2 = .ok reader opened ∧
      reader.stream.sampleRate = request.sampleRate ∧
      reader.stream.channels = request.channels ∧
      reader.stream.encoding = request.encoding ∧
      reader.stream.order = request.order.chosen ∧
      reader.region = ⟨headerSize, (calls.flatMap Writer.Call.samples).length⟩ ∧
      reader.stream.frames = (calls.flatMap Writer.Call.samples).length /
        (request.encoding.bytesPerSample * request.channels.toNat) ∧
      reader.journal.warned = false ∧
      ∀ wants : List Nat, (∀ want ∈ wants, 0 < want) →
        ∃ result store', reader.drain wants opened = .ok result store' ∧
          (result = some (calls.flatMap Writer.Call.samples) ∨
            result = none ∧ wants.length ≤ (calls.flatMap Writer.Call.samples).length) := by
  obtain ⟨writer, writer', hcreate, hrun, hclose, hcontent, -, hreadable⟩ :=
    Writer.close_of_session request calls hrequest hempty hcursor haccepting
  have hread := hreadable hbad
  obtain ⟨reader, pace, hopen, hstream, hregion, hjournal⟩ :=
    ofStore_of_written hread hrequest hcontent
  refine ⟨writer, _, writer', reader, _, hcreate, hrun, hclose, rfl, hopen, ?_, ?_, ?_, ?_, hregion,
    ?_, hjournal, ?_⟩
  · rw [hstream]; rfl
  · rw [hstream]; rfl
  · rw [hstream]; rfl
  · rw [hstream]; rfl
  · rw [hstream, Stream.frames]
    exact if_neg (Nat.ne_of_gt (StreamRequest.bytesPerFrame_pos hrequest))
  · have hsize : writer'.close.2.bytes.size < 2 ^ 63 :=
      Store.size_of_header hcontent ▸ haccepting.capacity_lt
    exact fun wants hwants => drain_of_written hread (by omega) hcontent hregion pace hwants

/-- Seven bytes of samples in two writes are read back as one frame of two 24-bit samples and a
byte. -/
theorem ofStore_of_session_pcm24 :
    ∃ writer answers writer' reader opened,
      Writer.create ⟨.pcm24, 2, 48000, .big⟩ { bytes := .empty } = .ok writer writer.store ∧
      Writer.run [.write ⟨#[1, 2, 3, 4]⟩, .write ⟨#[5, 6, 7]⟩] writer = .ok answers writer' ∧
      ofStore writer'.close.2 = .ok reader opened ∧
      reader.stream.sampleRate = 48000 ∧ reader.stream.order = .big ∧
      reader.stream.frames = 1 ∧ reader.journal.warned = false ∧
      ∃ store', reader.drain [3, 3, 3, 3, 3, 3, 3, 3] opened =
        .ok (some [1, 2, 3, 4, 5, 6, 7]) store' := by
  have haccepting : Store.Accepting { bytes := .empty } 75 :=
    ⟨rfl, rfl, rfl, rfl, rfl, by decide, by rintro _ ⟨rfl⟩; decide, by decide⟩
  obtain ⟨writer, answers, writer', reader, opened, hcreate, hrun, -, -, hopen, hrate, -, -, horder,
    -, hframes, hjournal, hdrain⟩ :=
    ofStore_of_session ⟨.pcm24, 2, 48000, .big⟩ [.write ⟨#[1, 2, 3, 4]⟩, .write ⟨#[5, 6, 7]⟩]
      rfl rfl (Nat.zero_le _) rfl haccepting
  obtain ⟨result, store', hall, rfl | ⟨-, hshort⟩⟩ := hdrain [3, 3, 3, 3, 3, 3, 3, 3] (by simp)
  · exact ⟨writer, answers, writer', reader, opened, hcreate, hrun, hopen, hrate, horder, hframes,
      hjournal, store', hall⟩
  -- Eight buffers are more than seven bytes.
  · exact absurd hshort (by decide)

end Reader

end Caf
