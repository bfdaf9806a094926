import Caf.Sample.Description

/-!
# Which encoding a record describes

The table of rules is asked from the front, and the flag of floating point samples decides which of
its rules have a say. What they look at is the same for every encoding: the family, the flag, and
the bits of a sample. The size of a packet is looked at for linear samples alone.

## Main definitions

* `Encoding.isCompanded`: the encodings whose packets are not looked at;
* `Description.Means`: a record agrees with an encoding.

## Main results

* `Description.classify_eq_found_iff`, `Description.encoding?_eq_some_iff`: the encoding of a record
  is the one that it agrees with, if linear samples have packets of one frame;
* `Description.frame_lt_of_encoding?`: the frames of a record that is read fit their field.
-/

namespace Caf

/-- Samples are companded to one byte each. -/
def Encoding.isCompanded : Encoding → Bool
  | alaw => true
  | ulaw => true
  | _ => false

/-- Companded samples have one byte. -/
theorem Encoding.bytesPerSample_of_isCompanded {encoding : Encoding}
    (h : encoding.isCompanded = true) : encoding.bytesPerSample = 1 := by
  cases encoding with
  | alaw | ulaw => rfl
  | pcm16 | pcm24 | pcm32 | float32 | float64 => cases h

namespace Description

variable {d : Description} {encoding : Encoding}

/-- The record `d` agrees with `encoding` in its family, its flag and its bits. -/
structure Means (d : Description) (encoding : Encoding) : Prop where
  /-- The code of the family is that of the encoding. -/
  family : d.formatId = idFor encoding
  /-- The flag of floating point samples is that of the encoding. -/
  float : d.saysFloat = encoding.isFloat
  /-- The bits of a sample are those of the encoding. -/
  bits : d.bitsPerChannel = UInt32.ofNat encoding.bitsPerSample

/-! ## The table of rules -/

/-- With the flag of floating point samples, the first two rules decide what `classify` says. -/
theorem classify_of_float (h : d.saysFloat = true) :
    d.classify = match d.linearFloat with
      | .pass => d.floatConsistency
      | verdict => verdict := by
  have hconsistent : d.floatConsistency =
      .reject "'desc' chunk suggests float data, but other info invalid" := if_pos h
  cases hrule : d.linearFloat with
  | pass => simp only [classify, rules, firstVerdict, hrule, hconsistent]
  | reject reason | found encoding => simp only [classify, rules, firstVerdict, hrule]

/-- Without the flag of floating point samples, only the last two rules have a say in `classify`. -/
theorem classify_of_integer (h : d.saysFloat = false) :
    d.classify = match d.linearInteger with
      | .pass => d.companded
      | verdict => verdict := by
  have hfloat : d.linearFloat = .pass := if_pos (.inr (by rw [h]; rfl))
  have hconsistent : d.floatConsistency = .pass := if_neg (by rw [h]; exact Bool.false_ne_true)
  cases hrule : d.linearInteger with
  | pass =>
    cases hlast : d.companded with
    | pass | reject reason | found encoding =>
      simp only [classify, rules, firstVerdict, hfloat, hconsistent, hrule, hlast]
  | reject reason | found encoding =>
    simp only [classify, rules, firstVerdict, hfloat, hconsistent, hrule]

/-- A record that agrees with `encoding` is found to be in that encoding, if linear samples have
packets of one frame. -/
theorem classify_eq (h : d.Means encoding)
    (hpacket : encoding.isCompanded = false → d.packetFits encoding.bytesPerSample = true) :
    d.classify = .found encoding := by
  obtain ⟨hid, hfloat, hbits⟩ := h
  -- The flag decides which of the rules have a say.
  cases encoding with
  | float32 | float64 =>
    have hfits := hpacket rfl
    simp only [idFor, Encoding.isFloat, Encoding.bitsPerSample, Encoding.bytesPerSample] at *
    rw [classify_of_float hfloat]
    simp [linearFloat, hid, hfloat, hbits, hfits]
  | pcm16 | pcm24 | pcm32 =>
    have hfits := hpacket rfl
    simp only [idFor, Encoding.isFloat, Encoding.bitsPerSample, Encoding.bytesPerSample] at *
    rw [classify_of_integer hfloat]
    simp [linearInteger, hid, hbits, hfits]
  | alaw | ulaw =>
    simp only [idFor, Encoding.isFloat, Encoding.bitsPerSample, Encoding.bytesPerSample] at *
    rw [classify_of_integer hfloat]
    have hinteger : d.linearInteger = .pass := if_pos (by rw [hid]; decide)
    have hlaws : ulaw ≠ alaw := by decide
    simp [hinteger, companded, hid, hbits, hlaws]

/-! ## What a rule has found -/

theorem means_of_linearFloat (hfloat : d.saysFloat = true) (h : d.linearFloat = .found encoding) :
    d.Means encoding ∧ d.packetFits encoding.bytesPerSample = true := by
  unfold linearFloat at h
  split at h
  case isTrue => cases h
  case isFalse hfamily =>
    have hid : d.formatId = lpcm := Decidable.of_not_not fun hne => hfamily (.inl hne)
    split at h
    case isTrue hshape =>
      cases h
      exact ⟨⟨hid, hfloat, hshape.1⟩, hshape.2⟩
    case isFalse =>
      split at h
      case isTrue hshape =>
        cases h
        exact ⟨⟨hid, hfloat, hshape.1⟩, hshape.2⟩
      case isFalse => cases h

theorem means_of_linearInteger (hinteger : d.saysFloat = false)
    (h : d.linearInteger = .found encoding) :
    d.Means encoding ∧ d.packetFits encoding.bytesPerSample = true := by
  unfold linearInteger at h
  split at h
  case isTrue => cases h
  case isFalse hfamily =>
    have hid : d.formatId = lpcm := Decidable.of_not_not hfamily
    -- One case for each width of an integer sample.
    repeat'
      split at h
      case isTrue hshape =>
        cases h
        exact ⟨⟨hid, hinteger, hshape.1⟩, hshape.2⟩
    cases h

theorem means_of_companded (hinteger : d.saysFloat = false) (h : d.companded = .found encoding) :
    d.Means encoding ∧ encoding.isCompanded = true := by
  unfold companded at h
  split at h
  case isTrue => cases h
  case isFalse hbits =>
    have height : d.bitsPerChannel = 8 := Decidable.of_not_not hbits
    repeat'
      split at h
      case isTrue hid =>
        cases h
        exact ⟨⟨hid, hinteger, height⟩, rfl⟩
    cases h

/-- A record is found to be in the encoding that it agrees with, if linear samples have packets of
one frame, and in no other. -/
theorem classify_eq_found_iff :
    d.classify = .found encoding ↔ d.Means encoding ∧
      (encoding.isCompanded = false → d.packetFits encoding.bytesPerSample = true) := by
  constructor
  · intro h
    -- The float bit decides which of the first two rules is asked; the companded rule is only
    -- reached past the integer one, and it does not look at the packet.
    cases hfloat : d.saysFloat with
    | true =>
      rw [classify_of_float hfloat] at h
      cases hrule : d.linearFloat with
      | pass =>
        rw [hrule] at h
        simp only [floatConsistency, hfloat, ↓reduceIte] at h
        cases h
      | reject reason =>
        rw [hrule] at h
        cases h
      | found other =>
        rw [hrule] at h
        cases h
        obtain ⟨hmeans, hfits⟩ := means_of_linearFloat hfloat hrule
        exact ⟨hmeans, fun _ => hfits⟩
    | false =>
      rw [classify_of_integer hfloat] at h
      cases hrule : d.linearInteger with
      | pass =>
        rw [hrule] at h
        obtain ⟨hmeans, hcompanded⟩ := means_of_companded hfloat h
        exact ⟨hmeans, fun hlinear => absurd hcompanded (by rw [hlinear]; exact Bool.false_ne_true)⟩
      | reject reason =>
        rw [hrule] at h
        cases h
      | found other =>
        rw [hrule] at h
        cases h
        obtain ⟨hmeans, hfits⟩ := means_of_linearInteger hfloat hrule
        exact ⟨hmeans, fun _ => hfits⟩
  · rintro ⟨hmeans, hpacket⟩
    exact classify_eq hmeans hpacket

theorem encoding?_eq_some_iff :
    d.encoding? = some encoding ↔ d.Means encoding ∧
      (encoding.isCompanded = false → d.packetFits encoding.bytesPerSample = true) := by
  rw [← classify_eq_found_iff, encoding?]
  cases d.classify <;> simp

/-- A record in `encoding` has frames whose size fits a field: the packets of linear samples have
that size, and companded samples have one byte. -/
theorem frame_lt_of_encoding? (h : d.encoding? = some encoding) :
    encoding.bytesPerSample * d.channelsPerFrame.toNat < 2 ^ 32 := by
  obtain ⟨-, hpacket⟩ := encoding?_eq_some_iff.1 h
  cases hcompanded : encoding.isCompanded with
  | false =>
    rw [← eq_of_beq (hpacket hcompanded)]
    exact d.bytesPerPacket.toNat_lt
  | true =>
    rw [Encoding.bytesPerSample_of_isCompanded hcompanded, Nat.one_mul]
    exact d.channelsPerFrame.toNat_lt

end Description

end Caf
