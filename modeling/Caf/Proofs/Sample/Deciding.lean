import Caf.Container.Journal
import Caf.Proofs.Sample.Judging

/-!
# What the table of rules decides

The rules are asked one after the other, some look at the flag of floating point samples and some do
not, and one of them ends the search. What they decide together can be said without an order: each
encoding asks for a family, for a value of one bit, for the bits of a sample and, where samples are
linear, for the size of a packet. No record is asked for by two encodings. A record that sets the
bit and is not in a floating point encoding leaves a warning, and no other record does.

## Main definitions

* `Description.Shows`: what an encoding asks of a record.

## Main results

* `Description.shows_iff`: that is what the rules look at;
* `Description.classify_cases`: what the rules make of a record;
* `Journal.judge_decides`: what is found in a record, and what is recorded.
-/

namespace Caf

namespace Description

variable {d : Description} {encoding : Encoding}

/-! ## What is asked of a record -/

/-- The record `d` has linear samples of some `bits`, with a packet for each frame. The size of a
packet is a product of whole numbers, which nothing bounds. -/
def ShowsLinear (d : Description) (float : Bool) (bits bytes : Nat) : Prop :=
  d.formatId = lpcm ∧ d.formatFlags.toNat.testBit 0 = float ∧ d.bitsPerChannel.toNat = bits ∧
    d.bytesPerPacket.toNat = bytes * d.channelsPerFrame.toNat

/-- The record `d` has companded samples of some `family`. -/
def ShowsCompanded (d : Description) (family : FourCC) : Prop :=
  d.formatId = family ∧ d.formatFlags.toNat.testBit 0 = false ∧ d.bitsPerChannel.toNat = 8

/-- What an encoding asks of the record `d`. -/
def Shows (d : Description) : Encoding → Prop
  | .pcm16 => d.ShowsLinear false 16 2
  | .pcm24 => d.ShowsLinear false 24 3
  | .pcm32 => d.ShowsLinear false 32 4
  | .float32 => d.ShowsLinear true 32 4
  | .float64 => d.ShowsLinear true 64 8
  | .alaw => d.ShowsCompanded alaw
  | .ulaw => d.ShowsCompanded ulaw

/-- The flag of floating point samples is the last bit of `d.formatFlags`. -/
theorem saysFloat_eq_testBit (d : Description) :
    d.saysFloat = d.formatFlags.toNat.testBit 0 := by
  have hmask : (d.formatFlags &&& floatFlag).toNat = d.formatFlags.toNat % 2 := by
    rw [UInt32.toNat_and]
    exact Nat.and_one_is_mod _
  have hzero : d.formatFlags &&& floatFlag = 0 ↔ d.formatFlags.toNat % 2 = 0 := by
    rw [← hmask, ← UInt32.toNat_inj]
    rfl
  rw [saysFloat, Nat.testBit_zero]
  -- Both are decided by the remainder by two.
  apply decide_eq_decide.2
  rw [ne_eq, hzero]
  omega

/-- The bits of a record are those of `encoding` where they are the same number. -/
theorem bits_iff : d.bitsPerChannel = UInt32.ofNat encoding.bitsPerSample ↔
    d.bitsPerChannel.toNat = encoding.bitsPerSample := by
  have hsmall : encoding.bitsPerSample < 2 ^ 32 := by cases encoding <;> decide
  rw [← UInt32.toNat_inj, UInt32.toNat_ofNat_of_lt' hsmall]

/-- What `encoding` asks of a record is that it agrees with the encoding, with packets of one frame
where samples are linear. -/
theorem shows_iff : d.Shows encoding ↔ d.Means encoding ∧
    (encoding.isCompanded = false → d.packetFits encoding.bytesPerSample = true) := by
  have hmeans : d.Means encoding ↔ d.formatId = idFor encoding ∧
      d.formatFlags.toNat.testBit 0 = encoding.isFloat ∧
      d.bitsPerChannel.toNat = encoding.bitsPerSample := by
    rw [← bits_iff, ← saysFloat_eq_testBit]
    exact ⟨fun h => ⟨h.family, h.float, h.bits⟩, fun ⟨hid, hfloat, hbits⟩ => ⟨hid, hfloat, hbits⟩⟩
  have hpacket : d.packetFits encoding.bytesPerSample = true ↔
      d.bytesPerPacket.toNat = encoding.bytesPerSample * d.channelsPerFrame.toNat := by
    rw [packetFits, beq_iff_eq]
  rw [hmeans, hpacket]
  -- With the numbers of each encoding filled in, both sides say the same.
  cases encoding with
  | pcm16 | pcm24 | pcm32 | float32 | float64 =>
    simp only [Shows, ShowsLinear, idFor, Encoding.isFloat, Encoding.bitsPerSample,
      Encoding.bytesPerSample, Encoding.isCompanded, true_implies, and_assoc]
  | alaw | ulaw =>
    simp [Shows, ShowsCompanded, idFor, Encoding.isFloat, Encoding.bitsPerSample,
      Encoding.bytesPerSample, Encoding.isCompanded]

/-- The encoding that `encoding?` finds in a record is the one that asks for it. -/
theorem encoding?_eq_some_iff_shows : d.encoding? = some encoding ↔ d.Shows encoding := by
  rw [shows_iff, encoding?_eq_some_iff]

/-- A record has no encoding where none asks for it. -/
theorem encoding?_eq_none_iff_shows : d.encoding? = none ↔ ∀ encoding, ¬ d.Shows encoding := by
  rw [Option.eq_none_iff_forall_ne_some]
  simp only [ne_eq, encoding?_eq_some_iff_shows]

/-! ## Rejected records -/

/-- The rule about the flag, `floatConsistency`, is the only one that rejects records. -/
theorem ne_reject (d : Description) (reason : String) :
    d.linearFloat ≠ .reject reason ∧ d.linearInteger ≠ .reject reason ∧
      d.companded ≠ .reject reason := by
  unfold linearFloat linearInteger companded
  refine ⟨?_, ?_, ?_⟩
  all_goals
    repeat' split
    all_goals exact nofun

/-- A record has an encoding, or the flag of floating point samples decides whether `classify`
rejects it or all rules pass it on. -/
theorem classify_cases (d : Description) :
    (∃ encoding, d.classify = .found encoding) ∨
    (d.saysFloat = true ∧
      d.classify = .reject "'desc' chunk suggests float data, but other info invalid") ∨
    (d.saysFloat = false ∧ d.classify = .pass) := by
  cases hfloat : d.saysFloat with
  | true =>
    rw [classify_of_float hfloat]
    cases hrule : d.linearFloat with
    | pass => exact .inr (.inl ⟨rfl, if_pos hfloat⟩)
    | reject reason => exact absurd hrule (d.ne_reject reason).1
    | found encoding => exact .inl ⟨encoding, rfl⟩
  | false =>
    rw [classify_of_integer hfloat]
    cases hrule : d.linearInteger with
    | pass =>
      cases hlast : d.companded with
      | pass => exact .inr (.inr ⟨rfl, rfl⟩)
      | reject reason => exact absurd hlast (d.ne_reject reason).2.2
      | found encoding => exact .inl ⟨encoding, rfl⟩
    | reject reason => exact absurd hrule (d.ne_reject reason).2.1
    | found encoding => exact .inl ⟨encoding, rfl⟩

/-! ## What does not matter -/

/-- The record `d` with another `rate`, other `frames` in a packet, and other `flags` apart from the
one of floating point samples. -/
def retold (d : Description) (rate : Binary64) (frames flags : UInt32) : Description :=
  { d with
    sampleRate := rate
    framesPerPacket := frames
    formatFlags := (d.formatFlags &&& floatFlag) ||| (flags &&& ~~~floatFlag) }

theorem testBit_zero_retold (d : Description) (rate : Binary64) (frames flags : UInt32) :
    (d.retold rate frames flags).formatFlags.toNat.testBit 0 = d.formatFlags.toNat.testBit 0 := by
  have hmask : (~~~floatFlag).toNat.testBit 0 = false := by decide
  have hflag : floatFlag.toNat.testBit 0 = true := by decide
  rw [retold, UInt32.toNat_or, UInt32.toNat_and, UInt32.toNat_and, Nat.testBit_or,
    Nat.testBit_and, Nat.testBit_and, hmask, hflag, Bool.and_true, Bool.and_false, Bool.or_false]

/-- No encoding asks for what `retold` has changed. -/
theorem shows_retold_iff (rate : Binary64) (frames flags : UInt32) :
    (d.retold rate frames flags).Shows encoding ↔ d.Shows encoding := by
  cases encoding with
  | pcm16 | pcm24 | pcm32 | float32 | float64 =>
    rw [Shows, Shows, ShowsLinear, ShowsLinear, testBit_zero_retold]
    rfl
  | alaw | ulaw =>
    rw [Shows, Shows, ShowsCompanded, ShowsCompanded, testBit_zero_retold]
    rfl

end Description

namespace Journal

open Description

/-- What `judge` records: one line, which is a warning, where the flag of floating point samples is
set and no encoding is found, and nothing otherwise. -/
theorem lines_judge (journal : Journal) (d : Description) :
    (journal.judge d).2.lines =
      if d.formatFlags.toNat.testBit 0 = true ∧ (journal.judge d).1 = none then
        journal.lines.push
          ⟨.warning, "Ooops, 'desc' chunk suggests float data, but other info invalid."⟩
      else journal.lines := by
  rw [← saysFloat_eq_testBit]
  -- Without an encoding, the flag tells a rejected record from one that no rule has decided on.
  rcases d.classify_cases with ⟨encoding, hfound⟩ | ⟨hfloat, hreject⟩ | ⟨hfloat, hpass⟩
  · simp [judge, hfound]
  · simp [judge, warn, hfloat, hreject]
  · simp [judge, hfloat, hpass]

/-- The table of rules decides what has been specified, for every record and whatever its numbers
are. An encoding is found exactly in the records that show what it asks for, and none is found where
no encoding asks for the record. The sizes of packets are products without a bound, so that no large
number of channels is taken for a small one. One line more is in the `journal`, and it is a warning,
where the flag of floating point samples is set and no encoding is found; otherwise the lines are
those that were there. The `rate`, the `frames` in a packet and all other `flags` do not matter. -/
theorem judge_decides (journal : Journal) (d : Description) :
    (∀ encoding, (journal.judge d).1 = some encoding ↔ d.Shows encoding) ∧
    ((journal.judge d).1 = none ↔ ∀ encoding, ¬ d.Shows encoding) ∧
    ((journal.judge d).2.lines =
      if d.formatFlags.toNat.testBit 0 = true ∧ (journal.judge d).1 = none then
        journal.lines.push
          ⟨.warning, "Ooops, 'desc' chunk suggests float data, but other info invalid."⟩
      else journal.lines) ∧
    ∀ rate frames flags, journal.judge (d.retold rate frames flags) = journal.judge d := by
  refine ⟨?_, ?_, journal.lines_judge d, ?_⟩
  · intro encoding
    rw [judge_fst, encoding?_eq_some_iff_shows]
  · rw [judge_fst, encoding?_eq_none_iff_shows]
  · intro rate frames flags
    have hfound : (journal.judge (d.retold rate frames flags)).1 = (journal.judge d).1 := by
      rw [judge_fst, judge_fst]
      apply Option.ext
      intro encoding
      rw [encoding?_eq_some_iff_shows, encoding?_eq_some_iff_shows, shows_retold_iff]
    -- What is recorded follows from what is found.
    have hlines : (journal.judge (d.retold rate frames flags)).2.lines =
        (journal.judge d).2.lines := by
      rw [lines_judge, lines_judge, hfound, testBit_zero_retold]
    exact Prod.ext hfound (congrArg Journal.mk hlines)

/-- With 2³⁰ channels of 32 bits, the size of a packet is zero modulo 2³². It is not taken for one.
-/
example : (empty.judge ⟨⟨0⟩, lpcm, 0, 0, 1, 0x40000000, 32⟩) = (none, empty) := by
  decide

end Journal

end Caf
