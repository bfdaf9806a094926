import Caf.Error.Basic
import Caf.Text.Blank

/-!
# Sample encodings

The encodings that samples can have, the sizes of their samples, and the names that they go by.
-/

namespace Caf

/-- How one sample of one channel is encoded. -/
inductive Encoding where
  /-- Signed 16-bit integer. -/
  | pcm16
  /-- Signed 24-bit integer. -/
  | pcm24
  /-- Signed 32-bit integer. -/
  | pcm32
  /-- 32-bit floating point. -/
  | float32
  /-- 64-bit floating point. -/
  | float64
  /-- 8-bit A-law. -/
  | alaw
  /-- 8-bit mu-law. -/
  | ulaw
  deriving DecidableEq, Repr, Inhabited

namespace Encoding

/-- Every encoding, in the order in which they are listed. -/
def all : List Encoding :=
  [pcm16, pcm24, pcm32, float32, float64, alaw, ulaw]

/-- Every encoding is in the list `all`. -/
theorem mem_all (encoding : Encoding) : encoding ∈ all := by
  cases encoding <;> decide

/-- Bytes of one sample of one channel. -/
def bytesPerSample : Encoding → Nat
  | pcm16 => 2
  | pcm24 => 3
  | pcm32 => 4
  | float32 => 4
  | float64 => 8
  | alaw => 1
  | ulaw => 1

/-- Bits of one sample of one channel. -/
def bitsPerSample (encoding : Encoding) : Nat :=
  8 * encoding.bytesPerSample

/-- Samples are floating point numbers. -/
def isFloat : Encoding → Bool
  | float32 => true
  | float64 => true
  | _ => false

/-- The short name. -/
def name : Encoding → String
  | pcm16 => "pcm16"
  | pcm24 => "pcm24"
  | pcm32 => "pcm32"
  | float32 => "float32"
  | float64 => "float64"
  | alaw => "alaw"
  | ulaw => "ulaw"

/-- A caption for readers. -/
def caption : Encoding → String
  | pcm16 => "Signed 16 bit data"
  | pcm24 => "Signed 24 bit data"
  | pcm32 => "Signed 32 bit data"
  | float32 => "32 bit float data"
  | float64 => "64 bit float data"
  | alaw => "A-Law"
  | ulaw => "U-Law"

/-- All names that an encoding goes by, the short name first. -/
def names : Encoding → List String
  | pcm16 => ["pcm16", "pcm_16", "s16"]
  | pcm24 => ["pcm24", "pcm_24", "s24"]
  | pcm32 => ["pcm32", "pcm_32", "s32"]
  | float32 => ["float32", "float", "f32"]
  | float64 => ["float64", "double", "f64"]
  | alaw => ["alaw", "a-law"]
  | ulaw => ["ulaw", "u-law", "mulaw"]

/-- The encoding that has `given` among its `names`; blanks around it and the case of its letters do
not matter. -/
def ofName (given : String) : Except Error Encoding :=
  match all.find? (·.names.contains (normalName given)) with
  | some encoding => .ok encoding
  | none => .error (.unsupported (.encodingName given))

end Encoding

end Caf
