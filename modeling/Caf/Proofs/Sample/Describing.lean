import Caf.Container.Journal
import Caf.Proofs.Sample.Judging

/-!
# What is described is recognised

A record that describes samples in an encoding exists where the bytes of a frame fit their field. It
agrees with that encoding in all that the rules look at, so it is found to be in that encoding, and
in no other that shares its family, its bits or the size of its packets. The rate has no say in this
and can be any pattern of bits.

## Main definitions

* `Description.describing`: the record for an encoding.

## Main results

* `Description.ofEncoding_eq_ok_iff`: which samples are described, and by which record;
* `Description.byteOrder_describing`, `Description.classify_describing`: the byte order and the
  encoding of a record are those that it was written for;
* `Description.judge_of_ofEncoding`: reading and judging the record as it is stored.
-/

namespace Caf.Description

variable {encoding : Encoding} {channels : UInt32} {order : ByteOrder} {rate : Binary64}

/-- The record for samples in `encoding`, where the bytes of a frame fit their field. -/
def describing (encoding : Encoding) (channels : UInt32) (order : ByteOrder) (rate : Binary64) :
    Description where
  sampleRate := rate
  formatId := idFor encoding
  formatFlags := flagsFor encoding order
  bytesPerPacket := UInt32.ofNat (encoding.bytesPerSample * channels.toNat)
  framesPerPacket := 1
  channelsPerFrame := channels
  bitsPerChannel := UInt32.ofNat encoding.bitsPerSample

/-- Samples are described by `ofEncoding` where the bytes of a frame fit their field. -/
theorem ofEncoding_eq_ok_iff {d : Description} :
    ofEncoding encoding channels order rate = .ok d ↔
      encoding.bytesPerSample * channels.toNat < 2 ^ 32 ∧
        d = describing encoding channels order rate := by
  by_cases hframe : encoding.bytesPerSample * channels.toNat < 2 ^ 32
  case pos =>
    have hpacket : multiplyWithin 32 encoding.bytesPerSample channels.toNat =
        .ok (encoding.bytesPerSample * channels.toNat) := if_pos hframe
    rw [ofEncoding, hpacket, and_iff_right hframe]
    show Except.ok (describing encoding channels order rate) = _ ↔ _
    rw [Except.ok.injEq, eq_comm]
  case neg =>
    have hpacket : multiplyWithin 32 encoding.bytesPerSample channels.toNat =
        .error .multiplyOverflow := if_neg hframe
    rw [ofEncoding, hpacket]
    refine ⟨fun h => ?_, fun h => absurd h.1 hframe⟩
    cases h

/-! ## What the rules look at -/

/-- The two flags do not disturb each other: each is found again beside the other. -/
theorem flags_describing :
    (describing encoding channels order rate).saysFloat = encoding.isFloat ∧
      (describing encoding channels order rate).byteOrder = order := by
  show decide (flagsFor encoding order &&& floatFlag ≠ 0) = _ ∧
    (if flagsFor encoding order &&& littleFlag ≠ 0 then ByteOrder.little else .big) = _
  cases encoding <;> cases order <;> exact ⟨rfl, rfl⟩

theorem byteOrder_describing : (describing encoding channels order rate).byteOrder = order :=
  flags_describing.2

theorem means_describing : (describing encoding channels order rate).Means encoding :=
  ⟨rfl, flags_describing.1, rfl⟩

section Frame

variable (hframe : encoding.bytesPerSample * channels.toNat < 2 ^ 32)
include hframe

theorem packetFits_describing :
    (describing encoding channels order rate).packetFits encoding.bytesPerSample = true := by
  show ((UInt32.ofNat (encoding.bytesPerSample * channels.toNat)).toNat ==
    encoding.bytesPerSample * channels.toNat) = true
  rw [UInt32.toNat_ofNat_of_lt' hframe]
  exact beq_self_eq_true _

/-- The rules find the `encoding` that a record was written for. -/
theorem classify_describing :
    (describing encoding channels order rate).classify = .found encoding :=
  classify_eq means_describing fun _ => packetFits_describing hframe

/-- Samples whose frames fit are described. The record `d` is read back bit for bit from what is
stored of it, whatever follows, and whatever the bits of `rate` are; it is found to be in the
encoding and the byte order that it was written for, without a word in the `journal`. -/
theorem judge_of_ofEncoding (order : ByteOrder) (rate : Binary64) (journal : Journal) :
    ∃ d, ofEncoding encoding channels order rate = .ok d ∧
      d.sampleRate = rate ∧ d.channelsPerFrame = channels ∧
      d.toBytes.length = descriptionSize ∧
      (∀ rest, read? (d.toBytes ++ rest) = some (d, rest)) ∧
      journal.judge d = (some encoding, journal) ∧ d.byteOrder = order := by
  refine ⟨describing encoding channels order rate, ofEncoding_eq_ok_iff.2 ⟨hframe, rfl⟩, rfl, rfl,
    length_toBytes _, fun rest => read?_toBytes_append _ rest, ?_, byteOrder_describing⟩
  rw [Journal.judge, classify_describing hframe]

end Frame

/-- The largest number of channels with 32-bit samples, and a rate that is not a number: the flag
alone tells these samples from integers of the same size. -/
theorem judge_of_ofEncoding_widest :
    ∃ d, ofEncoding .float32 0x3FFFFFFF .little ⟨0x7FF8000000000001⟩ = .ok d ∧
      d = ⟨⟨0x7FF8000000000001⟩, lpcm, 3, 0xFFFFFFFC, 1, 0x3FFFFFFF, 32⟩ ∧
      read? (d.toBytes ++ [9]) = some (d, [9]) ∧
      Journal.empty.judge d = (some .float32, .empty) ∧ d.byteOrder = .little := by
  obtain ⟨d, hdescribed, -, -, -, hread, hjudge, horder⟩ :=
    @judge_of_ofEncoding .float32 0x3FFFFFFF (by decide) .little ⟨0x7FF8000000000001⟩ .empty
  exact ⟨d, hdescribed, (ofEncoding_eq_ok_iff.1 hdescribed).2, hread [9], hjudge, horder⟩

end Caf.Description
