import Caf.Sample.Description

/-!
# Streams

A stream is described by its rate, its channels, the encoding and the byte order of its samples, and
by the region of the file that holds them. `StreamRequest` is what a caller asks for when a new
stream is started; `Stream` is the state of one open stream, and everything else about it is
derived.
-/

namespace Caf

/-- The most channels that a new stream can have. -/
def maxChannels : Nat := 1024

/-- Where the sample bytes are in a file. -/
structure Region where
  /-- Offset of the first sample byte. -/
  offset : Nat
  /-- Number of sample bytes. -/
  length : Nat
  deriving DecidableEq, Repr

/-- The offset behind the last sample byte of `region`, which has to fit sixty-four bits. -/
def Region.stop (region : Region) : Except Defect Nat :=
  addWithin 64 region.offset region.length

/-- What a caller asks for in a new stream. -/
structure StreamRequest where
  /-- Encoding of the samples. -/
  encoding : Encoding
  /-- Number of channels. -/
  channels : UInt32
  /-- Sample frames per second. -/
  sampleRate : UInt32
  /-- Byte order. -/
  order : ByteOrderRequest
  deriving DecidableEq, Repr

namespace StreamRequest

/-- One channel of `encoding`, in the byte order of the machine. -/
def mono (encoding : Encoding) (sampleRate : UInt32) : StreamRequest :=
  { encoding, channels := 1, sampleRate, order := .file }

/-- Two channels of `encoding`, in the byte order of the machine. -/
def stereo (encoding : Encoding) (sampleRate : UInt32) : StreamRequest :=
  { encoding, channels := 2, sampleRate, order := .file }

/-- Checks what `request` asks for (`validate`); the channels are looked at first. -/
def check (request : StreamRequest) : Except Error Unit :=
  if request.channels = 0 then .error (.badParameter .noChannels)
  else if maxChannels < request.channels.toNat then
    .error (.badParameter (.tooManyChannels request.channels.toNat maxChannels))
  else if request.sampleRate = 0 then .error (.badParameter .zeroRate)
  else .ok ()

end StreamRequest

/-- The state of one open stream. -/
structure Stream where
  /-- Sample frames per second. -/
  sampleRate : UInt32
  /-- Number of channels. -/
  channels : UInt32
  /-- Encoding of the samples. -/
  encoding : Encoding
  /-- Byte order of the samples. -/
  order : ByteOrder
  /-- Offset of the first sample byte, once it is known. -/
  start : Option Nat
  /-- Number of sample bytes. -/
  length : Nat
  deriving DecidableEq, Repr

namespace Stream

/-- A stream without samples whose place in the file is not known yet. -/
def blank (sampleRate channels : UInt32) (encoding : Encoding) (order : ByteOrder) : Stream :=
  { sampleRate, channels, encoding, order, start := none, length := 0 }

/-- The stream that `request` asks for. -/
def requested (request : StreamRequest) : Except Error Stream := do
  request.check
  return blank request.sampleRate request.channels request.encoding request.order.chosen

/-- Bytes of one sample of every channel. -/
def bytesPerFrame (stream : Stream) : Nat :=
  stream.encoding.bytesPerSample * stream.channels.toNat

/-- Number of whole frames; a last partial frame does not count. -/
def frames (stream : Stream) : Nat :=
  if stream.bytesPerFrame = 0 then 0 else stream.length / stream.bytesPerFrame

/-- The region of the samples, once their `start` is known. -/
def region? (stream : Stream) : Option Region :=
  stream.start.map fun offset => { offset, length := stream.length }

/-- The region of the samples, which start behind `headerSize` bytes when nothing else is known. -/
def region (stream : Stream) : Region :=
  { offset := stream.start.getD headerSize, length := stream.length }

/-- How long the samples last, in seconds; zero when there is no rate. -/
def duration (stream : Stream) : Binary64 :=
  if stream.sampleRate = 0 then ⟨0⟩
  else .quotient stream.frames stream.sampleRate.toNat

/-- Records that the samples start at `offset`. Samples never move once their place is known. -/
def locate (stream : Stream) (offset : Nat) : Except Defect Stream :=
  match stream.start with
  | none => .ok { stream with start := some offset }
  | some known =>
    if known = offset then .ok stream else .error (.relocated known offset)

/-- The rate of a stream as a record stores it. -/
def rateField (stream : Stream) : Binary64 :=
  .ofNat stream.sampleRate.toNat

/-- The summary of a stream. -/
structure Summary where
  /-- Sample frames per second. -/
  sampleRate : UInt32
  /-- Number of channels. -/
  channels : UInt32
  /-- Encoding of the samples. -/
  encoding : Encoding
  /-- Byte order of the samples. -/
  order : ByteOrder
  /-- Number of whole frames. -/
  frames : Nat
  /-- Offset of the first sample byte, zero while it is not known. -/
  start : Nat
  /-- Number of sample bytes. -/
  length : Nat
  /-- Length in seconds. -/
  duration : Binary64
  deriving DecidableEq, Repr

/-- The summary of a stream. -/
def summary (stream : Stream) : Summary :=
  { sampleRate := stream.sampleRate
    channels := stream.channels
    encoding := stream.encoding
    order := stream.order
    frames := stream.frames
    start := stream.start.getD 0
    length := stream.length
    duration := stream.duration }

end Stream

end Caf
