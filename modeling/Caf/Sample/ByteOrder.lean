import Caf.Error.Basic
import Caf.Text.Blank

/-!
# Byte orders

The order of the bytes in a sample. A writer may ask for an order or leave it to the machine, which
is taken to store the least significant byte first.
-/

namespace Caf

/-- The order of the bytes in a sample. -/
inductive ByteOrder where
  /-- Most significant byte first. -/
  | big
  /-- Least significant byte first. -/
  | little
  deriving DecidableEq, Repr, Inhabited

namespace ByteOrder

/-- The order in which the machine keeps numbers. -/
def ofMachine : ByteOrder := .little

/-- The short name. -/
def name : ByteOrder → String
  | big => "big"
  | little => "little"

end ByteOrder

/-- The byte order that a writer asks for. -/
inductive ByteOrderRequest where
  /-- No preference: the order of the machine. -/
  | file
  /-- Least significant byte first. -/
  | little
  /-- Most significant byte first. -/
  | big
  /-- The order of the machine. -/
  | cpu
  deriving DecidableEq, Repr, Inhabited

namespace ByteOrderRequest

/-- All requests. -/
def all : List ByteOrderRequest := [file, little, big, cpu]

/-- The byte order that a request stands for (`resolve`). -/
def chosen : ByteOrderRequest → ByteOrder
  | file => .ofMachine
  | little => .little
  | big => .big
  | cpu => .ofMachine

/-- The request for a given byte order. -/
def ofByteOrder : ByteOrder → ByteOrderRequest
  | .big => .big
  | .little => .little

/-- All names that a request goes by. -/
def names : ByteOrderRequest → List String
  | file => ["file", "default"]
  | little => ["little", "le"]
  | big => ["big", "be"]
  | cpu => ["cpu", "native"]

/-- The request that has `given` among its `names`; blanks around it and the case of its letters do
not matter. -/
def ofName (given : String) : Except Error ByteOrderRequest :=
  match all.find? (·.names.contains (normalName given)) with
  | some request => .ok request
  | none => .error (.badParameter (.byteOrder given))

end ByteOrderRequest

end Caf
