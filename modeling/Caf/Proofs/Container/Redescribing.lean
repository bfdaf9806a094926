import Caf.Proofs.Container.Founding
import Caf.Proofs.Container.Roundtrip

/-!
# Describing a stream again

The product of channels and bytes of a sample has to fit the field for the size of a packet. Nothing
checks this when a header is put together, and a container that is opened may have any number of
channels. It fits all the same: the rules that find an encoding compare the product with that field,
or ask for samples of one byte, and a stream that is started here has few channels. So there is a
header for every stream that has been opened or is being written, and the description in it is read
as what it was written for.

## Main definitions

* `Stream.Sensible`: a stream with a rate, with channels, and with frames that fit their field;
* `Stream.Redescribed`: a stream for which there is a header that says what the stream is.

## Main results

* `Stream.Sensible.redescribed`: sensible streams have headers;
* `Stream.redescribed_of_opened_or_underway`: so do those that have been opened, and those that are
  being written.
-/

namespace Caf

namespace Stream

/-- A description can be made of `stream`. -/
structure Sensible (stream : Stream) : Prop where
  /-- There is a rate. -/
  rate : stream.sampleRate ≠ 0
  /-- There are channels. -/
  channels : stream.channels ≠ 0
  /-- The size of a frame fits the field for it. -/
  frame : stream.bytesPerFrame < 2 ^ 32

/-- There is a header for `stream`, and its description is that of the stream. -/
structure Redescribed (stream : Stream) : Prop where
  /-- The size of a packet fits thirty-two bits. -/
  packet : stream.encoding.bytesPerSample * stream.channels.toNat < 2 ^ 32
  /-- The record has that size, and not what is left of it. -/
  describe : ∃ d, stream.describe = .ok d ∧
    d.bytesPerPacket.toNat = stream.encoding.bytesPerSample * stream.channels.toNat
  /-- Samples that a data chunk can declare have a header, whatever has been drafted before. -/
  compose : stream.length < 2 ^ 63 → ∀ draft : HeaderDraft, ∃ header d rest,
    draft.compose stream = (.ok header, ⟨header, some d⟩) ∧ header.length = 68 ∧
    Description.read? (header.drop (fileHeaderSize + chunkHeaderSize)) = some (d, rest) ∧
    (∀ journal : Journal, journal.judge d = (some stream.encoding, journal)) ∧
    d.channelsPerFrame = stream.channels ∧ d.byteOrder = stream.order ∧
    Header.wholeRate? d.sampleRate = some stream.sampleRate

variable {stream : Stream}

/-- A stream that a description can be made of has a header, so that it is `Redescribed`. -/
theorem Sensible.redescribed (h : stream.Sensible) : stream.Redescribed := by
  -- The product fits, so that there is a record, and the record means the stream.
  have hdescribe := describe_eq h.frame
  refine ⟨h.frame, ⟨_, hdescribe, UInt32.toNat_ofNat_of_lt' h.frame⟩, ?_⟩
  intro hlength draft
  have hdescribes := describes h.rate h.channels h.frame
  have hread :=
    (headerReads_append stream.description (Int64.ofNat stream.length) []).description
  rw [List.append_nil] at hread
  refine ⟨_, stream.description, _, ?_, length_headerBytes _ _, hread,
    fun _ => Journal.judge_of_found hdescribes.encoding, rfl, byteOrder_description stream,
    hdescribes.rate⟩
  -- The length is all that is left to be refused.
  simp only [HeaderDraft.compose, hdescribe, if_pos hlength]

/-- A `header` that is read has a stream that a description can be made of: it has been made of one,
and the rules that found its encoding have looked at the size of a frame. -/
theorem sensible_of_read {store : Store} {header : Header} {scan : Scan}
    (h : Header.read ⟨store, .empty⟩ = .ok header scan) : header.stream.Sensible := by
  obtain ⟨start, rate, encoding, -, -, -, hdescribes, hstream⟩ := Header.read_ok h
  rw [hstream]
  exact ⟨Header.ne_zero_of_wholeRate? hdescribes.rate, hdescribes.channels,
    Description.frame_lt_of_encoding? hdescribes.encoding⟩

/-- A stream that is started for `request` has few channels. -/
theorem sensible_of_check {request : StreamRequest} (hcheck : request.check = .ok ())
    (start : Option Nat) : ({ request.stream with start } : Stream).Sensible := by
  obtain ⟨hchannels, -, hrate⟩ := StreamRequest.check_eq_ok_iff.1 hcheck
  exact ⟨hrate, hchannels, Nat.lt_of_le_of_lt (StreamRequest.bytesPerFrame_le hcheck) (by decide)⟩

/-- Neither the `length` of a stream nor its `start` is in its description. -/
theorem Sensible.lasting : Lasting Sensible where
  withLength _ _ h := ⟨h.rate, h.channels, h.frame⟩
  located stream stream' offset h hlocate := by
    -- A place is recorded where there was none, or it is the one that is known.
    unfold locate at hlocate
    split at hlocate
    · cases hlocate
      exact ⟨h.rate, h.channels, h.frame⟩
    · split at hlocate
      · cases hlocate
        exact h
      · cases hlocate

/-- Describing a stream again never goes out of range, whatever container it comes from. For every
container that is opened by a `reader`, with as many channels as a field holds, and for every
`writer` that a stream has been started or continued with, whatever has happened since: the size of
a packet is the product of channels and bytes of a sample, which fits its field. Where the samples
are not too long for a data chunk, the header has sixty-eight bytes, and its description is read as
the encoding, the channels, the byte order and the rate of the stream. -/
theorem redescribed_of_opened_or_underway :
    (∀ (store opened : Store) (reader : Reader), Reader.ofStore store = .ok reader opened →
      reader.stream.Redescribed) ∧
    ∀ writer : Writer, writer.Underway → writer.stream.Redescribed := by
  constructor
  · intro store opened reader hopen
    obtain ⟨header, scan, hread, rfl, -⟩ := Reader.ofStore_eq_ok_iff.1 hopen
    exact (sensible_of_read hread).redescribed
  -- A writer starts from a request that has been checked, or from a header that has been read.
  · intro writer hwriter
    refine Sensible.redescribed (hwriter.of_lasting Sensible.lasting ?_ ?_)
    · intro request hcheck
      exact sensible_of_check hcheck _
    · intro store header scan hread _
      exact sensible_of_read hread

/-- A container of mu-law samples has as many channels as its field can hold, and declares packets
without a byte. It is opened, and continued at a size of packets that has been taken anew. -/
theorem redescribed_of_opened_or_underway_widest :
    ∃ (store opened left : Store) (reader : Reader) (writer : Writer) (request : StreamRequest),
      Reader.ofStore store = .ok reader opened ∧ reader.stream.channels = 0xFFFFFFFF ∧
      Writer.append request store = .ok writer left ∧ writer.stream.length = 5 ∧
      (∃ d, reader.stream.describe = .ok d ∧ d.bytesPerPacket = 0xFFFFFFFF) ∧
      ∃ header, (HeaderDraft.empty.compose writer.stream).1 = .ok header ∧ header.length = 68 := by
  let description : Description :=
    ⟨⟨0x40BF400000000000⟩, Description.ulaw, 0, 0, 1, 0xFFFFFFFF, 8⟩
  let store : Store := { bytes := ⟨(headerBytes description 9 ++ [1, 2, 3, 4, 5]).toArray⟩ }
  let request : StreamRequest := .mono .pcm16 44100
  obtain ⟨reader, opened, hopen, hchannels⟩ : ∃ reader opened, Reader.ofStore store =
      .ok reader opened ∧ reader.stream.channels = 0xFFFFFFFF ∧
        reader.stream.encoding.bytesPerSample = 1 := by
    decide +kernel
  obtain ⟨writer, left, happend, hlength⟩ : ∃ writer left, Writer.append request store =
      .ok writer left ∧ writer.stream.length = 5 := by
    decide +kernel
  have hunderway : writer.Underway := ⟨writer, store, [], ⟨request, left, .inr happend⟩, rfl⟩
  obtain ⟨d, hdescribe, hpacket⟩ :=
    (redescribed_of_opened_or_underway.1 store opened reader hopen).describe
  have hcomposed := (redescribed_of_opened_or_underway.2 writer hunderway).compose
  obtain ⟨header, _, _, hcompose, hsize, -⟩ := hcomposed (by rw [hlength]; decide) .empty
  rw [hchannels.1, hchannels.2] at hpacket
  exact ⟨store, opened, left, reader, writer, request, hopen, hchannels.1, happend, hlength,
    ⟨d, hdescribe, UInt32.toNat_inj.1 hpacket⟩, header, congrArg Prod.fst hcompose, hsize⟩

end Stream

end Caf
