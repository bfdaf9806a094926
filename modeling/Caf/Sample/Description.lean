import Caf.Sample.ByteOrder
import Caf.Sample.Encoding

/-!
# Description records

The description of the samples is a record of thirty-two bytes: the rate as a binary64 number, the
code of a family of encodings, and five 32-bit numbers. `Description.ofEncoding` describes samples
in an encoding, and an ordered table of rules finds the encoding that a record describes. The code
alone is ambiguous, since integer and floating point samples share one, so the order of the rules
matters.
-/

namespace Caf

/-- The description record of a container. -/
structure Description where
  /-- Sample frames per second. -/
  sampleRate : Binary64
  /-- The family of encodings. -/
  formatId : FourCC
  /-- Details of the encoding, bit by bit. -/
  formatFlags : UInt32
  /-- Bytes in one packet. -/
  bytesPerPacket : UInt32
  /-- Sample frames in one packet. -/
  framesPerPacket : UInt32
  /-- Channels in one frame. -/
  channelsPerFrame : UInt32
  /-- Bits of one sample of one channel. -/
  bitsPerChannel : UInt32
  deriving DecidableEq, Repr

namespace Description

/-- Linear samples, integer or floating point. -/
def lpcm : FourCC := .ofChars 'l' 'p' 'c' 'm'

/-- A-law samples. -/
def alaw : FourCC := .ofChars 'a' 'l' 'a' 'w'

/-- Mu-law samples. -/
def ulaw : FourCC := .ofChars 'u' 'l' 'a' 'w'

/-- The flag bit of floating point samples. -/
def floatFlag : UInt32 := 1

/-- The flag bit of samples with the least significant byte first. -/
def littleFlag : UInt32 := 2

/-- The flag word for samples in `encoding` and `order`. -/
def flagsFor (encoding : Encoding) (order : ByteOrder) : UInt32 :=
  (if order = .little then littleFlag else 0) ||| (if encoding.isFloat then floatFlag else 0)

/-- The code of the family that an encoding belongs to. -/
def idFor : Encoding → FourCC
  | .alaw => alaw
  | .ulaw => ulaw
  | _ => lpcm

/-- The record that describes a stream with one frame in each packet (`encode`). The packet size has
to fit thirty-two bits. -/
def ofEncoding (encoding : Encoding) (channels : UInt32) (order : ByteOrder) (rate : Binary64) :
    Except Defect Description := do
  let packet ← multiplyWithin 32 encoding.bytesPerSample channels.toNat
  return {
    sampleRate := rate
    formatId := idFor encoding
    formatFlags := flagsFor encoding order
    bytesPerPacket := UInt32.ofNat packet
    framesPerPacket := 1
    channelsPerFrame := channels
    bitsPerChannel := UInt32.ofNat encoding.bitsPerSample }

/-- The byte order that the flags of `d` declare. -/
def byteOrder (d : Description) : ByteOrder :=
  if d.formatFlags &&& littleFlag ≠ 0 then .little else .big

/-- The flags of `d` declare floating point samples. -/
def saysFloat (d : Description) : Bool :=
  d.formatFlags &&& floatFlag ≠ 0

/-- One packet of `d` holds one sample of `bytesPerSample` bytes for each channel. -/
def packetFits (d : Description) (bytesPerSample : Nat) : Bool :=
  d.bytesPerPacket.toNat == bytesPerSample * d.channelsPerFrame.toNat

/-- The record as stored, `descriptionSize` bytes. -/
def toBytes (d : Description) : Bytes :=
  Field.be64 d.sampleRate.bits ++ d.formatId.toBytes ++ Field.be32 d.formatFlags ++
    Field.be32 d.bytesPerPacket ++ Field.be32 d.framesPerPacket ++
    Field.be32 d.channelsPerFrame ++ Field.be32 d.bitsPerChannel

/-- Reads a record from the front of `bytes`. -/
def read? (bytes : Bytes) : Option (Description × Bytes) := do
  let (rate, bytes) ← Field.be64? bytes
  let (formatId, bytes) ← FourCC.read? bytes
  let (formatFlags, bytes) ← Field.be32? bytes
  let (bytesPerPacket, bytes) ← Field.be32? bytes
  let (framesPerPacket, bytes) ← Field.be32? bytes
  let (channelsPerFrame, bytes) ← Field.be32? bytes
  let (bitsPerChannel, bytes) ← Field.be32? bytes
  return ({ sampleRate := ⟨rate⟩, formatId, formatFlags, bytesPerPacket, framesPerPacket,
            channelsPerFrame, bitsPerChannel }, bytes)

@[simp]
theorem length_toBytes (d : Description) : d.toBytes.length = descriptionSize := by
  simp [toBytes, descriptionSize, Field.Word.width]

/-- A record is read back, and nothing of `rest` is touched. -/
@[simp]
theorem read?_toBytes_append (d : Description) (rest : Bytes) :
    read? (d.toBytes ++ rest) = some (d, rest) := by
  simp [read?, toBytes]

/-! ## Finding the encoding -/

/-- What one rule says about a record. -/
inductive Verdict where
  /-- The record describes this encoding. -/
  | found (encoding : Encoding)
  /-- The record contradicts itself; no later rule is asked. -/
  | reject (reason : String)
  /-- The rule has nothing to say; the next one is asked. -/
  | pass
  deriving DecidableEq, Repr

/-- A rule with a name for diagnostics. -/
structure Rule where
  /-- What the rule is called. -/
  name : String
  /-- What the rule says about a record. -/
  apply : Description → Verdict

/-- Linear floating point samples whose packets have the size that the bits of `d` ask for. -/
def linearFloat (d : Description) : Verdict :=
  if d.formatId ≠ lpcm ∨ !d.saysFloat then .pass
  else if d.bitsPerChannel = 32 ∧ d.packetFits 4 then .found .float32
  else if d.bitsPerChannel = 64 ∧ d.packetFits 8 then .found .float64
  else .pass

/-- No other record may claim floating point samples. -/
def floatConsistency (d : Description) : Verdict :=
  if d.saysFloat then .reject "'desc' chunk suggests float data, but other info invalid" else .pass

/-- Linear integer samples whose packets have the size that the bits of `d` ask for. -/
def linearInteger (d : Description) : Verdict :=
  if d.formatId ≠ lpcm then .pass
  else if d.bitsPerChannel = 32 ∧ d.packetFits 4 then .found .pcm32
  else if d.bitsPerChannel = 24 ∧ d.packetFits 3 then .found .pcm24
  else if d.bitsPerChannel = 16 ∧ d.packetFits 2 then .found .pcm16
  else .pass

/-- Samples of eight bits in one of the two companded encodings. -/
def companded (d : Description) : Verdict :=
  if d.bitsPerChannel ≠ 8 then .pass
  else if d.formatId = alaw then .found .alaw
  else if d.formatId = ulaw then .found .ulaw
  else .pass

/-- The rules in the order in which they are asked. -/
def rules : List Rule :=
  [⟨"lpcm float", linearFloat⟩, ⟨"float flag consistency", floatConsistency⟩,
   ⟨"lpcm integer", linearInteger⟩, ⟨"companded", companded⟩]

/-- The first verdict on `d` that is not to pass on. -/
def firstVerdict (d : Description) : List Rule → Verdict
  | [] => .pass
  | rule :: rest =>
    match rule.apply d with
    | .pass => firstVerdict d rest
    | verdict => verdict

/-- What the table of `rules` says about `d`. -/
def classify (d : Description) : Verdict :=
  firstVerdict d rules

/-- The encoding that `d` describes. -/
def encoding? (d : Description) : Option Encoding :=
  match d.classify with
  | .found encoding => some encoding
  | .reject _ => none
  | .pass => none

end Description

end Caf
