import Caf.Record.Field
import Caf.Text.Hex

/-!
# Four-character codes

A four-character code is four raw bytes. File markers, chunk types and encodings are named by such
codes. A code is shown with its printable ASCII bytes as themselves and every other byte as an
escape of four characters.
-/

namespace Caf

/-- A four-character code as it is stored. -/
structure FourCC where
  /-- The first byte. -/
  b0 : UInt8
  /-- The second byte. -/
  b1 : UInt8
  /-- The third byte. -/
  b2 : UInt8
  /-- The last byte. -/
  b3 : UInt8
  deriving DecidableEq, Repr, Inhabited

namespace FourCC

/-- The code that the ASCII characters `c0` to `c3` spell. -/
def ofChars (c0 c1 c2 c3 : Char) : FourCC :=
  ⟨UInt8.ofNat c0.toNat, UInt8.ofNat c1.toNat, UInt8.ofNat c2.toNat, UInt8.ofNat c3.toNat⟩

/-- The four bytes of `code` in stored order. -/
def toBytes (code : FourCC) : Bytes :=
  [code.b0, code.b1, code.b2, code.b3]

/-- Reads a code from the front. -/
def read? : Bytes → Option (FourCC × Bytes)
  | b0 :: b1 :: b2 :: b3 :: rest => some (⟨b0, b1, b2, b3⟩, rest)
  | _ => none

@[simp]
theorem length_toBytes (code : FourCC) : code.toBytes.length = 4 := rfl

/-- A code is read back, and nothing of `rest` is touched. -/
@[simp]
theorem read?_toBytes_append (code : FourCC) (rest : Bytes) :
    read? (code.toBytes ++ rest) = some (code, rest) := rfl

/-- Printable ASCII, the blank included. -/
def isPrintable (b : UInt8) : Bool :=
  32 ≤ b.toNat && b.toNat ≤ 126

/-- A printable byte `b` as itself, any other as a backslash, an x and two hexadecimal digits. -/
def byteText (b : UInt8) : List Char :=
  if isPrintable b then [Char.ofNat b.toNat] else '\\' :: 'x' :: Hex.ofByte b

/-- The characters that `code` is shown with. -/
def text (code : FourCC) : List Char :=
  code.toBytes.flatMap byteText

/-- The text that `code` is shown with. -/
def display (code : FourCC) : String :=
  String.ofList code.text

end FourCC

end Caf
