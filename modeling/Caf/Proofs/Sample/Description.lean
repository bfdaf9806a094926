import Caf.Container.HeaderDraft
import Caf.Proofs.Sample.Describing

/-!
# What a stream is described by

The record that describes a stream depends on its rate, its channels, its encoding and its byte
order, and on nothing that changes while samples are written. It exists wherever the size of a
packet fits its field, and so for every request that passes its checks. It is read as what it was
written for.

## Main definitions

* `Stream.description`: the record of a stream;
* `StreamRequest.stream`: the stream that is started for a request.

## Main results

* `Stream.encoding?_description`, `Stream.byteOrder_description`: the record of a stream has the
  encoding and the byte order of the stream;
* `Stream.describe_eq`: a stream whose packets have a size is described by its record;
* `exists_around_description`: where the record of a stream stands in its header;
* `StreamRequest.requested_eq`, `StreamRequest.describe_eq`: a request that passes its checks gives
  a stream that is described.
-/

namespace Caf

/-- The record `d` stands behind the file header and the header of its chunk, which have the same
size in every header. -/
theorem exists_around_description (d : Description) (declared : Int64) :
    ∃ front back, front.length = fileHeaderSize + chunkHeaderSize ∧
      headerBytes d declared = front ++ (d.toBytes ++ back) := by
  refine ⟨FileHeader.standard.toBytes ++
    (ChunkHeader.mk .description (Int64.ofNat descriptionSize)).toBytes,
    (ChunkHeader.mk .data declared).toBytes ++ Field.be32 editCount, ?_, ?_⟩
  · rw [List.length_append, FileHeader.length_toBytes, ChunkHeader.length_toBytes]
  · simp only [headerBytes, List.append_assoc]

namespace Stream

/-- The record that describes `stream`, where the bytes of a frame fit their field. -/
def description (stream : Stream) : Description where
  sampleRate := stream.rateField
  formatId := Description.idFor stream.encoding
  formatFlags := Description.flagsFor stream.encoding stream.order
  bytesPerPacket := UInt32.ofNat stream.bytesPerFrame
  framesPerPacket := 1
  channelsPerFrame := stream.channels
  bitsPerChannel := UInt32.ofNat stream.encoding.bitsPerSample

/-- The `description` of a stream is the record for its encoding, channels and byte order. -/
theorem description_eq (stream : Stream) :
    stream.description =
      .describing stream.encoding stream.channels stream.order stream.rateField := rfl

/-- A stream whose packets have a size that fits is described by its record. -/
theorem describe_eq {stream : Stream} (h : stream.bytesPerFrame < 2 ^ 32) :
    stream.describe = .ok stream.description :=
  Description.ofEncoding_eq_ok_iff.2 ⟨h, stream.description_eq⟩

/-- The size of a packet in the record `d` of a stream is that of its frames. -/
theorem bytesPerFrame_of_describe {stream : Stream} {d : Description}
    (h : stream.describe = .ok d) :
    stream.bytesPerFrame < 2 ^ 32 ∧ stream.bytesPerFrame = d.bytesPerPacket.toNat := by
  obtain ⟨hframe, rfl⟩ := Description.ofEncoding_eq_ok_iff.1 h
  exact ⟨hframe, (UInt32.toNat_ofNat_of_lt' hframe).symm⟩

/-- The record of a stream has the byte order of the stream. -/
theorem byteOrder_description (stream : Stream) : stream.description.byteOrder = stream.order := by
  rw [description_eq, Description.byteOrder_describing]

/-- The record of a stream has the encoding of the stream. -/
theorem encoding?_description {stream : Stream} (h : stream.bytesPerFrame < 2 ^ 32) :
    stream.description.encoding? = some stream.encoding := by
  rw [description_eq, Description.encoding?, Description.classify_describing h]

end Stream

/-- No sample is longer than eight bytes. -/
theorem Encoding.bytesPerSample_le (encoding : Encoding) : encoding.bytesPerSample ≤ 8 := by
  cases encoding <;> decide

/-- A sample has at least one byte. -/
theorem Encoding.bytesPerSample_pos (encoding : Encoding) : 0 < encoding.bytesPerSample := by
  cases encoding <;> decide

namespace StreamRequest

variable {request : StreamRequest}

/-- A request passes `check` when it has channels, not too many of them, and a rate. -/
theorem check_eq_ok_iff :
    request.check = .ok () ↔
      request.channels ≠ 0 ∧ request.channels.toNat ≤ maxChannels ∧ request.sampleRate ≠ 0 := by
  unfold check
  by_cases hchannels : request.channels = 0
  · simp [hchannels]
  by_cases hmany : maxChannels < request.channels.toNat
  · simp [hchannels, hmany, Nat.not_le.2 hmany]
  by_cases hrate : request.sampleRate = 0
  · simp [hchannels, hmany, hrate]
  · simp [hchannels, hmany, hrate, Nat.not_lt.1 hmany]

/-- The stream that is started for `request`. -/
def stream (request : StreamRequest) : Stream :=
  .blank request.sampleRate request.channels request.encoding request.order.chosen

theorem requested_eq (h : request.check = .ok ()) :
    Stream.requested request = .ok request.stream := by
  rw [Stream.requested, h]
  rfl

/-- A stream is started for a `request` that passes its checks, and for no other. -/
theorem requested_eq_ok_iff {stream : Stream} :
    Stream.requested request = .ok stream ↔ request.check = .ok () ∧ stream = request.stream := by
  cases hcheck : request.check with
  | ok _ =>
    rw [requested_eq hcheck]
    simp [eq_comm]
  | error e =>
    rw [Stream.requested, hcheck]
    simp [bind, Except.bind]

/-- A request that passes its checks has frames of at most eight kilobytes. -/
theorem bytesPerFrame_le (h : request.check = .ok ()) :
    request.stream.bytesPerFrame ≤ 8 * maxChannels :=
  Nat.mul_le_mul request.encoding.bytesPerSample_le (check_eq_ok_iff.1 h).2.1

/-- A request that passes its checks has frames. -/
theorem bytesPerFrame_pos (h : request.check = .ok ()) : 0 < request.stream.bytesPerFrame := by
  have hchannels : request.channels.toNat ≠ 0 := fun hzero =>
    (check_eq_ok_iff.1 h).1 (UInt32.toNat_inj.1 hzero)
  exact Nat.mul_pos request.encoding.bytesPerSample_pos (Nat.pos_of_ne_zero hchannels)

/-- The stream of a request that passes its checks is described. -/
theorem describe_eq (h : request.check = .ok ()) :
    request.stream.describe = .ok request.stream.description :=
  Stream.describe_eq (Nat.lt_of_le_of_lt (bytesPerFrame_le h) (by decide))

end StreamRequest

end Caf
