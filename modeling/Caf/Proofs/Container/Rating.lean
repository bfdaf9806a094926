import Caf.Proofs.Sample.Nearest
import Caf.Proofs.Container.Redescribing

/-!
# Which rates are accepted

Eight bytes of a container are its rate, as a pattern of the binary64 format. Any pattern may be put
there without a change to the rest of the container. What is opened then is the container with the
rate that is nearest to the number of the pattern, and nothing is opened where that is no rate. The
bytes that a header has for the rate of a stream are accepted in every container, as that rate.

## Main definitions

* `rateOffset`: where the rate of a container is;
* `Layout.withRate`: a container with another rate.

## Main results

* `Layout.toBytes_withRate`: another rate changes the eight bytes of the rate;
* `Reader.ofStore_of_rate`: which patterns are accepted, and what is read from them.
-/

namespace Caf

/-- The offset of the rate in a container, at the front of the description. -/
def rateOffset : Nat :=
  fileHeaderSize + chunkHeaderSize

/-- Bytes `old` in the middle are replaced by bytes of the same length. -/
theorem Bytes.splice_middle {front old new back : Bytes} {offset : Nat}
    (hfront : front.length = offset) (hnew : new.length = old.length) :
    splice (front ++ (old ++ back)) offset new = front ++ (new ++ back) := by
  rw [splice, List.take_left' hfront, ← List.drop_drop, List.drop_left' hfront, hnew,
    List.drop_left, List.append_assoc]

/-- The rate stands at the front of the record `d`. -/
theorem Description.exists_rate (d : Description) :
    ∃ back, ∀ rate, ({ d with sampleRate := rate } : Description).toBytes =
      Field.be64 rate.bits ++ back := by
  refine ⟨d.formatId.toBytes ++ Field.be32 d.formatFlags ++ Field.be32 d.bytesPerPacket ++
    Field.be32 d.framesPerPacket ++ Field.be32 d.channelsPerFrame ++ Field.be32 d.bitsPerChannel,
    ?_⟩
  intro rate
  simp only [toBytes, List.append_assoc]

namespace Layout

variable (l : Layout) (rate : Binary64)

/-- The container with another rate. -/
def withRate : Layout :=
  { l with description := { l.description with sampleRate := rate } }

/-- All that stands around the rate is told by the rest of the container. -/
theorem exists_around :
    ∃ front back, front.length = rateOffset ∧
      ∀ rate, (l.withRate rate).toBytes = front ++ (Field.be64 rate.bits ++ back) := by
  obtain ⟨back, hback⟩ := l.description.exists_rate
  refine ⟨l.fileHeader.toBytes ++ l.descriptionHeader.toBytes,
    back ++ (l.surplus ++ l.body.toBytes), ?_, ?_⟩
  · rw [List.length_append, FileHeader.length_toBytes, ChunkHeader.length_toBytes, rateOffset]
  · intro rate
    have hrecord := hback rate
    rw [toBytes_eq, List.append_assoc, ← List.append_assoc (Field.be64 _), ← hrecord]
    rfl

/-- Another `rate` changes the eight bytes of the rate. -/
theorem toBytes_withRate :
    (l.withRate rate).toBytes = Bytes.splice l.toBytes rateOffset (Field.be64 rate.bits) := by
  obtain ⟨front, back, hfront, hbytes⟩ := l.exists_around
  have hown : l.toBytes = front ++ (Field.be64 l.description.sampleRate.bits ++ back) :=
    hbytes l.description.sampleRate
  rw [hbytes, hown, Bytes.splice_middle hfront (by simp only [Field.length_be])]

end Layout

/-- The rate of a header is that of its description `d`. -/
theorem rate_headerBytes (d : Description) (declared : Int64) :
    ((headerBytes d declared).drop rateOffset).take 8 = Field.be64 d.sampleRate.bits := by
  obtain ⟨front, rest, hfront, hheader⟩ := exists_around_description d declared
  obtain ⟨back, hback⟩ := d.exists_rate
  have hrecord : d.toBytes = Field.be64 d.sampleRate.bits ++ back := hback d.sampleRate
  rw [hheader, hrecord, List.append_assoc, rateOffset, List.drop_left' hfront]
  exact List.take_left' (Field.length_be d.sampleRate.bits)

namespace Reader

variable {store opened : Store} {reader : Reader} {field : Binary64} {rate : UInt32}

/-- A container that is opened is opened with any other `rate`, too, if the pattern `field` in the
place of its rate is one. -/
theorem ofStore_with_rate_iff (hread : store.Readable) (hopen : ofStore store = .ok reader opened)
    {other : Store} (hother : other.Readable)
    (hcontent : other.content = Bytes.splice store.content rateOffset (Field.be64 field.bits)) :
    (∃ reader' opened', ofStore other = .ok reader' opened' ∧ reader'.stream.sampleRate = rate) ↔
      Header.wholeRate? field = some rate := by
  obtain ⟨l, own, encoding, -, hbytes, hdescribes, -, -⟩ := layout_of_ofStore hread hopen
  rw [hbytes, ← Layout.toBytes_withRate] at hcontent
  -- The rules for encodings do not look at the rate.
  have hencoding : (l.withRate field).description.encoding? = some encoding := hdescribes.encoding
  constructor
  · rintro ⟨reader', opened', hopen', hrate⟩
    cases hfield : Header.wholeRate? field with
    | none =>
      obtain ⟨_, _, _, herror⟩ := ofStore_of_invalid hother hcontent (.inl hfield)
      rw [herror] at hopen'
      cases hopen'
    | some found =>
      obtain ⟨pace, hok⟩ := ofStore_of_describes hother hcontent
        ⟨hfield, hdescribes.channels, hencoding⟩
      rw [hok] at hopen'
      cases hopen'
      exact congrArg some hrate
  · intro hfield
    obtain ⟨pace, hok⟩ := ofStore_of_describes hother hcontent
      ⟨hfield, hdescribes.channels, hencoding⟩
    exact ⟨_, _, hok, rfl⟩

/-- Which rates are accepted. Take any container that is opened by `reader`, and put any pattern
`field` in the place of its rate: it is opened exactly where the pattern stands for a number that is
rounded to a number from one to the largest of thirty-two bits, a half going away from zero, and has
that rate then. The eight bytes that a header has for the rate of a stream stand for the rate
itself, and are read as it, whatever container they are put in. -/
theorem ofStore_of_rate (hread : store.Readable) (hopen : ofStore store = .ok reader opened) :
    (∀ (field : Binary64) (other : Store), other.Readable →
      other.content = Bytes.splice store.content rateOffset (Field.be64 field.bits) →
        ((∃ reader' opened', ofStore other = .ok reader' opened') ↔
          ∃ q, field.rational? = some q ∧ 1 ≤ roundAway q ∧ roundAway q ≤ 2 ^ 32 - 1) ∧
        ∀ reader' opened', ofStore other = .ok reader' opened' →
          ∃ q, field.rational? = some q ∧ (reader'.stream.sampleRate.toNat : ℤ) = roundAway q) ∧
    ∀ (stream : Stream) (draft : HeaderDraft), stream.sampleRate ≠ 0 →
      stream.bytesPerFrame < 2 ^ 32 → stream.length < 2 ^ 63 →
        ∃ (header : Bytes) (field : Binary64), (draft.compose stream).1 = .ok header ∧
          (header.drop rateOffset).take 8 = Field.be64 field.bits ∧
          field.rational? = some (stream.sampleRate.toNat : ℚ) ∧
          ∀ other : Store, other.Readable →
            other.content = Bytes.splice store.content rateOffset
              ((header.drop rateOffset).take 8) →
            ∃ reader' opened', ofStore other = .ok reader' opened' ∧
              reader'.stream.sampleRate = stream.sampleRate := by
  constructor
  · intro field other hother hcontent
    constructor
    · rw [← Header.exists_wholeRate?_iff]
      constructor
      · rintro ⟨reader', opened', hopen'⟩
        exact ⟨_, (ofStore_with_rate_iff hread hopen hother hcontent).1 ⟨_, _, hopen', rfl⟩⟩
      · rintro ⟨rate, hrate⟩
        obtain ⟨reader', opened', hopen', -⟩ :=
          (ofStore_with_rate_iff hread hopen hother hcontent).2 hrate
        exact ⟨reader', opened', hopen'⟩
    · intro reader' opened' hopen'
      have hrate := (ofStore_with_rate_iff hread hopen hother hcontent).1 ⟨_, _, hopen', rfl⟩
      obtain ⟨q, hq, -, hround⟩ := Header.wholeRate?_eq_some_iff.1 hrate
      exact ⟨q, hq, hround.symm⟩
  · intro stream draft hrate hframe hlength
    have hpos : 0 < stream.sampleRate.toNat :=
      Nat.pos_of_ne_zero fun hzero => hrate (UInt32.toNat_inj.1 hzero)
    have hsmall : stream.sampleRate.toNat < 2 ^ 53 :=
      Nat.lt_trans stream.sampleRate.toNat_lt (by decide)
    refine ⟨headerBytes stream.description (Int64.ofNat stream.length), stream.rateField, ?_,
      rate_headerBytes _ _, Binary64.rational?_ofNat hpos hsmall, ?_⟩
    · simp only [HeaderDraft.compose, Stream.describe_eq hframe, if_pos hlength]
    · intro other hother hcontent
      rw [rate_headerBytes] at hcontent
      exact (ofStore_with_rate_iff hread hopen hother hcontent).2 (Header.wholeRate?_ofNat hrate)

/-- A half is a rate, of one, and the next smaller number is none. -/
theorem ofStore_of_rate_half :
    ∃ (store opened half below : Store) (reader : Reader), ofStore store = .ok reader opened ∧
      half.content =
        Bytes.splice store.content rateOffset (Field.be64 0x3FE0000000000000) ∧
      (∃ reader' opened', ofStore half = .ok reader' opened' ∧ reader'.stream.sampleRate = 1) ∧
      below.content =
        Bytes.splice store.content rateOffset (Field.be64 0x3FDFFFFFFFFFFFFF) ∧
      ¬ ∃ reader' opened', ofStore below = .ok reader' opened' := by
  let l : Layout := .written
    ⟨⟨0x40E5888000000000⟩, Description.lpcm, 0, 2, 1, 1, 16⟩ 2 [1, 2]
  let memory (l : Layout) : Store := { bytes := ⟨l.toBytes.toArray⟩ }
  have hread (rate : Binary64) : (memory (l.withRate rate)).Readable :=
    have hlength : (l.withRate rate).toBytes.length = 70 := (l.withRate rate).length_toBytes
    .of_memory _ (Nat.lt_of_le_of_lt (Nat.le_of_eq hlength) (by decide))
  obtain ⟨pace, hopen⟩ := ofStore_of_describes (hread l.description.sampleRate) rfl
    (⟨by decide, by decide, by decide⟩ : l.description.Describes 44100 .pcm16)
  obtain ⟨hrates, -⟩ := ofStore_of_rate (hread l.description.sampleRate) hopen
  let half := memory (l.withRate ⟨0x3FE0000000000000⟩)
  let below := memory (l.withRate ⟨0x3FDFFFFFFFFFFFFF⟩)
  have hhalf := hrates ⟨0x3FE0000000000000⟩ half (hread _) (l.toBytes_withRate _)
  have hbelow := hrates ⟨0x3FDFFFFFFFFFFFFF⟩ below (hread _) (l.toBytes_withRate _)
  refine ⟨_, _, half, below, _, hopen, l.toBytes_withRate _, ?_, l.toBytes_withRate _, ?_⟩
  · obtain ⟨reader', opened', hopen'⟩ := hhalf.1.2 ⟨1 / 2, by decide +kernel⟩
    obtain ⟨q, hq, hround⟩ := hhalf.2 reader' opened' hopen'
    have hnearest : (Binary64.rational? ⟨0x3FE0000000000000⟩).map roundAway = some 1 := by
      decide +kernel
    rw [hq, Option.map_some, Option.some.injEq] at hnearest
    rw [hnearest] at hround
    exact ⟨reader', opened', hopen', UInt32.toNat_inj.1 (Int.ofNat_inj.1 hround)⟩
  · rintro hopened
    obtain ⟨q, hq, hone, -⟩ := hbelow.1.1 hopened
    have hnearest : (Binary64.rational? ⟨0x3FDFFFFFFFFFFFFF⟩).map roundAway = some 0 := by
      decide +kernel
    rw [hq, Option.map_some, Option.some.injEq] at hnearest
    omega

end Reader

end Caf
