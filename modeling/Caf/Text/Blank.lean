/-!
# Blank characters and names

Names of encodings and byte orders are looked up without the blank characters around them and with
ASCII letters in lower case. Blank is every character with the Unicode property `White_Space`.
-/

namespace Caf

/-- The ranges of the Unicode property `White_Space`, ends included. -/
def blankRanges : List (Nat × Nat) :=
  [(0x09, 0x0d), (0x20, 0x20), (0x85, 0x85), (0xa0, 0xa0), (0x1680, 0x1680), (0x2000, 0x200a),
   (0x2028, 0x2029), (0x202f, 0x202f), (0x205f, 0x205f), (0x3000, 0x3000)]

/-- Has the Unicode property `White_Space`. -/
def isBlank (c : Char) : Bool :=
  blankRanges.any fun (first, last) => first ≤ c.toNat && c.toNat ≤ last

/-- The characters of `text` without the blank ones at either end. -/
def trimBlank (text : List Char) : List Char :=
  ((text.dropWhile isBlank).reverse.dropWhile isBlank).reverse

/-- An ASCII capital as the small letter, any other character as itself. -/
def asciiLower (c : Char) : Char :=
  if 'A' ≤ c ∧ c ≤ 'Z' then Char.ofNat (c.toNat + 32) else c

/-- The form in which `name` is looked up: without blanks around it, ASCII letters small. -/
def normalName (name : String) : String :=
  String.ofList ((trimBlank name.toList).map asciiLower)

end Caf
