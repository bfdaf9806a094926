import Caf.Error.Device
import Caf.Width

/-!
# Media that fail

What can go wrong with the medium on which bytes are kept, as data. Every way in which a medium can
disappoint its callers is a field of `Faults`, so that the behaviour of a whole run of operations is
a function of the store that it starts from. Transfers need not happen in one piece: `Faults.pace`
lists what the next calls of the medium will do, short transfers and interruptions included.
-/

namespace Caf

/-- What a medium does with one call for a transfer. -/
inductive Turn where
  /-- The call is interrupted before anything is moved. -/
  | interrupted
  /-- The call moves at most this many bytes and one more, so never none. -/
  | short (extra : Nat)
  deriving DecidableEq, Repr

/-- A pace for the next `transfers`: each moves at most `limit` bytes, but at least one, and where
`interrupting` is set an interruption comes before each. -/
def Turn.steady (limit : Nat) (interrupting : Bool) : (transfers : Nat) → List Turn
  | 0 => []
  | n + 1 =>
    if interrupting then .interrupted :: .short (limit - 1) :: steady limit interrupting n
    else .short (limit - 1) :: steady limit interrupting n

/-- Bytes that cannot be read. -/
structure BadArea where
  /-- The first offset that cannot be read. -/
  start : Nat
  /-- How reading there fails. -/
  error : DeviceError
  deriving DecidableEq, Repr

/-- How a medium fails. -/
structure Faults where
  /-- Flushing fails. -/
  flush : Bool := false
  /-- Seeking fails, and with it every question for the cursor or the length. -/
  seek : Bool := false
  /-- How many more bytes the medium takes, if that is limited. -/
  budget : Option Nat := none
  /-- Writing takes no bytes. -/
  refusing : Bool := false
  /-- The bytes that cannot be read. -/
  bad : Option BadArea := none
  /-- What the next transfers do; after them, a transfer moves all that it can. -/
  pace : List Turn := []
  /-- How far behind the last byte the medium claims to end. -/
  phantom : Nat := 0
  deriving DecidableEq, Repr

/-- No faults at all. -/
def Faults.none : Faults := {}

/-- What the place where the bytes of a store are kept can hold, when nothing fails. -/
structure Medium where
  /-- The largest offset that a cursor can have. -/
  reach : Nat
  /-- How a seek beyond the largest offset fails. -/
  seekError : DeviceError
  /-- The last offset at which writing can start, if there is one. -/
  lastWritable : Option Nat
  deriving DecidableEq, Repr

/-- Memory: every 64-bit offset can be sought, but writing has to start near the bytes. -/
def Medium.memory : Medium :=
  { reach := 2 ^ 64 - 1, seekError := .impossibleSeek, lastWritable := some (2 ^ 24) }

/-- A file: offsets are signed 64-bit numbers. -/
def Medium.file : Medium :=
  { reach := 2 ^ 63 - 1, seekError := .invalidArgument, lastWritable := none }

end Caf
