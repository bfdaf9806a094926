/-!
# Hexadecimal text

Lower-case hexadecimal digits: of one byte, always two of them, and of a number, as few as it needs.
-/

namespace Caf.Hex

/-- The digit for `n` below sixteen. -/
def digit (n : Nat) : Char :=
  if n < 10 then Char.ofNat (48 + n) else Char.ofNat (87 + n)

/-- The two digits of `b`. -/
def ofByte (b : UInt8) : List Char :=
  [digit (b.toNat / 16), digit (b.toNat % 16)]

/-- The number `n` without leading zeros; zero is one digit. -/
def ofNat (n : Nat) : String :=
  String.ofList (Nat.toDigits 16 n)

/-- Two digits for each of `bytes`, in order. -/
def ofBytes (bytes : List UInt8) : String :=
  String.ofList (bytes.flatMap ofByte)

end Caf.Hex
