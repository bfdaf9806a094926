import Caf.Proofs.Sample.Description

/-!
# Describing again what has been read

What has been found in a record is enough to describe it again: its family, its flags, its bits and
its channels come back, where it has one frame in a packet and no flags of a meaning unknown here.
The size of a packet comes back as that of one frame. The rules ask for that size where samples are
linear; a record of companded samples may declare any size, and comes back with another one.

## Main definitions

* `Description.repacked`: a record with packets of one frame.

## Main results

* `Description.flagsFor_byteOrder`: flags that mean something come back;
* `Description.ofEncoding_of_encoding?`: what a record comes back as, and when it is itself.
-/

namespace Caf.Description

variable {d : Description} {encoding : Encoding}

/-- The record `d` with packets of one frame in `encoding`. -/
def repacked (d : Description) (encoding : Encoding) : Description :=
  { d with bytesPerPacket := UInt32.ofNat (encoding.bytesPerSample * d.channelsPerFrame.toNat) }

/-! ## Flags -/

/-- A `word` without bits outside of `mask` is what the mask leaves of it. -/
theorem and_eq_self_of_and_not {word mask : UInt32} (h : word &&& ~~~mask = 0) :
    word &&& mask = word := by
  have hnone : word.toBitVec &&& ~~~mask.toBitVec = 0#32 := congrArg UInt32.toBitVec h
  apply UInt32.toBitVec_inj.1
  calc word.toBitVec &&& mask.toBitVec
      = word.toBitVec &&& mask.toBitVec ||| word.toBitVec &&& ~~~mask.toBitVec := by
        rw [hnone, BitVec.or_zero]
    _ = word.toBitVec &&& (mask.toBitVec ||| ~~~mask.toBitVec) := BitVec.and_or_distrib_left.symm
    _ = word.toBitVec := by rw [BitVec.or_not_self, BitVec.and_allOnes]

/-- A word of `flags` that all have a meaning is one of four. -/
theorem flags_cases {flags : UInt32} (h : flags &&& ~~~(littleFlag ||| floatFlag) = 0) :
    flags = 0 ∨ flags = floatFlag ∨ flags = littleFlag ∨ flags = littleFlag ||| floatFlag := by
  have hlt : flags.toNat < 4 := by
    rw [← and_eq_self_of_and_not h, UInt32.toNat_and]
    exact Nat.lt_of_le_of_lt Nat.and_le_right (by decide)
  simp only [← UInt32.toNat_inj]
  show flags.toNat = 0 ∨ flags.toNat = 1 ∨ flags.toNat = 2 ∨ flags.toNat = 3
  omega

/-- Flags that all have a meaning come back from what they mean. -/
theorem flagsFor_byteOrder (h : d.formatFlags &&& ~~~(littleFlag ||| floatFlag) = 0)
    (hfloat : d.saysFloat = encoding.isFloat) : flagsFor encoding d.byteOrder = d.formatFlags := by
  rw [flagsFor, ← hfloat, byteOrder, saysFloat]
  rcases flags_cases h with hflags | hflags | hflags | hflags <;> rw [hflags] <;> rfl

/-! ## Packets -/

/-- A record has packets of one frame exactly where `repacked` changes nothing. -/
theorem repacked_eq_self_iff
    (hframe : encoding.bytesPerSample * d.channelsPerFrame.toNat < 2 ^ 32) :
    d.repacked encoding = d ↔ d.packetFits encoding.bytesPerSample = true := by
  have hpacket : (UInt32.ofNat (encoding.bytesPerSample * d.channelsPerFrame.toNat)).toNat =
      encoding.bytesPerSample * d.channelsPerFrame.toNat := UInt32.toNat_ofNat_of_lt' hframe
  rw [packetFits, beq_iff_eq, ← hpacket, UInt32.toNat_inj]
  constructor
  · intro h
    exact (congrArg bytesPerPacket h).symm
  · intro h
    rw [repacked, ← h]

/-- Packets of companded samples hold a frame where they have a byte for each channel. -/
theorem packetFits_iff_of_isCompanded (h : encoding.isCompanded = true) :
    d.packetFits encoding.bytesPerSample = true ↔ d.bytesPerPacket = d.channelsPerFrame := by
  rw [packetFits, beq_iff_eq, Encoding.bytesPerSample_of_isCompanded h, Nat.one_mul,
    UInt32.toNat_inj]

section Again

variable (hencoding : d.encoding? = some encoding) (hframes : d.framesPerPacket = 1)
  (hflags : d.formatFlags &&& ~~~(littleFlag ||| floatFlag) = 0)
include hencoding hframes hflags

/-- What has been found in the record `d` describes the record with packets of one frame. -/
theorem ofEncoding_eq_repacked :
    ofEncoding encoding d.channelsPerFrame d.byteOrder d.sampleRate =
      .ok (d.repacked encoding) := by
  obtain ⟨⟨hid, hfloat, hbits⟩, -⟩ := encoding?_eq_some_iff.1 hencoding
  rw [ofEncoding, multiplyWithin, if_pos (frame_lt_of_encoding? hencoding)]
  show Except.ok _ = _
  rw [flagsFor_byteOrder hflags hfloat, ← hid, ← hbits, ← hframes]
  rfl

/-- A record `d` with one frame in a packet and no flags of an unknown meaning that is found to be
in `encoding` is described again with packets of one frame. That is the record itself, unless its
samples are companded: then it is so only where the record declares a byte for each channel. -/
theorem ofEncoding_of_encoding? :
    ofEncoding encoding d.channelsPerFrame d.byteOrder d.sampleRate = .ok (d.repacked encoding) ∧
    (ofEncoding encoding d.channelsPerFrame d.byteOrder d.sampleRate = .ok d ↔
      (encoding.isCompanded = true → d.bytesPerPacket = d.channelsPerFrame)) := by
  have hagain := ofEncoding_eq_repacked hencoding hframes hflags
  refine ⟨hagain, ?_⟩
  rw [hagain, Except.ok.injEq, repacked_eq_self_iff (frame_lt_of_encoding? hencoding)]
  cases hcompanded : encoding.isCompanded with
  | false => simpa using (encoding?_eq_some_iff.1 hencoding).2 hcompanded
  | true => simpa using packetFits_iff_of_isCompanded hcompanded

end Again

/-- A record of two channels of little-endian 24-bit samples comes back as it is, with its rate of
22049.6. -/
theorem ofEncoding_of_encoding?_pcm24 :
    ofEncoding .pcm24 2 .little ⟨0x40D5886666666666⟩ =
      .ok ⟨⟨0x40D5886666666666⟩, lpcm, 2, 6, 1, 2, 24⟩ :=
  (ofEncoding_of_encoding? (d := ⟨⟨0x40D5886666666666⟩, lpcm, 2, 6, 1, 2, 24⟩)
    (by decide) rfl (by decide)).2.2 (by simp [Encoding.isCompanded])

/-- A record of one channel of companded samples in packets of seven bytes is accepted, and comes
back with packets of one byte. -/
theorem ofEncoding_of_wide_packets :
    ∃ d : Description, d.encoding? = some .alaw ∧ d.framesPerPacket = 1 ∧
      d.formatFlags &&& ~~~(littleFlag ||| floatFlag) = 0 ∧ d.bytesPerPacket = 7 ∧
      ofEncoding .alaw d.channelsPerFrame d.byteOrder d.sampleRate =
        .ok { d with bytesPerPacket := 1 } ∧
      ofEncoding .alaw d.channelsPerFrame d.byteOrder d.sampleRate ≠ .ok d := by
  let d : Description := ⟨⟨0x40BF400000000000⟩, alaw, 0, 7, 1, 1, 8⟩
  have hagain : ofEncoding .alaw d.channelsPerFrame d.byteOrder d.sampleRate =
      .ok { d with bytesPerPacket := 1 } :=
    ofEncoding_eq_repacked (d := d) (by decide) rfl (by decide)
  refine ⟨d, by decide, rfl, by decide, rfl, hagain, ?_⟩
  rw [hagain]
  intro h
  exact absurd (Except.ok.inj h) (by decide)

end Caf.Description
