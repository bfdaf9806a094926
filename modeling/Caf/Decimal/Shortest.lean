import Caf.Binary64

/-!
# Shortest decimals

A positive number `mantissa * 2 ^ exponent` of the binary64 format is the nearest of its format to
every real number of an interval around it. `Decimal.shortest` finds the decimal with the fewest
digits in that interval, and of those the one nearest to the number: on the grids of one, two, and
up to seventeen digits it tries the two neighbours of the number, and the first grid with a hit
wins.
-/

namespace Caf

/-- The number `digits * 10 ^ exponent`. -/
structure Decimal where
  /-- The digits as one whole number. -/
  digits : Nat
  /-- The power of ten. -/
  exponent : Int
  deriving DecidableEq, Repr

namespace Decimal

/-- How many decimal digits `n` has; zero has one. -/
def length (n : Nat) : Nat :=
  (Nat.toDigits 10 n).length

/-- Moves trailing zeros of the digits into the power of ten, at most `steps` of them. -/
def strip : (steps : Nat) → Decimal → Decimal
  | 0, d => d
  | steps + 1, d =>
    if d.digits % 10 = 0 then strip steps ⟨d.digits / 10, d.exponent + 1⟩ else d

/-- The power `10 ^ exponent` as a quotient of natural numbers. -/
def powerOfTen : (exponent : Int) → Nat × Nat
  | .ofNat k => (Nat.pow 10 k, 1)
  | .negSucc k => (1, Nat.pow 10 (k + 1))

/-- The exponent of the power of ten just above `num / den`. -/
def magnitude (num den : Nat) : Int :=
  if den ≤ num then length (num / den) else 1 - (length ((den - 1) / num) : Int)

/-- The interval of numbers whose nearest neighbour in the format is `mantissa * 2 ^ exponent`, in
quarters of the last place: lower end, upper end and whether the ends belong to it. -/
def interval (mantissa : Nat) (exponent : Int) : Nat × Nat × Bool :=
  -- Just above a power of two the neighbour below is half as far away.
  let below := if mantissa = 2 ^ 52 ∧ -1074 < exponent then 1 else 2
  (4 * mantissa - below, 4 * mantissa + 2, mantissa % 2 == 0)

/-- The point of the grid of multiples of `10 ^ k` that lies in the `interval` of
`mantissa * 2 ^ exponent` and is nearest to it, if there is one. -/
def onGrid (tie : Tie) (mantissa : Nat) (exponent k : Int) : Option Nat :=
  let (low, high, closed) := interval mantissa exponent
  -- Everything is scaled to whole numbers: a quarter of the last place is `scale`, a grid step
  -- is `step`.
  let (up, down) := Binary64.ratio 1 (exponent - 2)
  let (ten, tenth) := powerOfTen k
  let scale := up * tenth
  let step := down * ten
  let middle := 4 * mantissa * scale
  let below := middle / step
  let inside (a b : Nat) : Bool := if closed then a ≤ b else a < b
  match inside (low * scale) (below * step), inside ((below + 1) * step) (high * scale) with
  | true, true => some (roundDiv tie middle step)
  | true, false => some below
  | false, true => some (below + 1)
  | false, false => none

/-- The decimal with the fewest digits that reads back as `mantissa * 2 ^ exponent`, for a positive
mantissa; `tie` decides between two that are equally near. -/
def shortest (tie : Tie) (mantissa : Nat) (exponent : Int) : Decimal :=
  let (up, down) := Binary64.ratio (4 * mantissa) (exponent - 2)
  let top := magnitude up down
  let found := (List.range 17).findSome? fun n =>
    let k := top - (n + 1 : Nat)
    (onGrid tie mantissa exponent k).map fun digits => strip 20 ⟨digits, k⟩
  found.getD ⟨0, 0⟩

/-- The power of ten of the first digit of `d`. -/
def leadingExponent (d : Decimal) : Int :=
  d.exponent + (length d.digits : Int) - 1

/-- All digits of `d` written out around a point, which is left away when no digit follows it. -/
def positional (d : Decimal) : String :=
  let digits := Nat.repr d.digits
  match d.exponent with
  | .ofNat k => digits ++ String.ofList (List.replicate k '0')
  | .negSucc k =>
    let places := k + 1
    let chars := digits.toList
    if chars.length ≤ places then
      "0." ++ String.ofList (List.replicate (places - chars.length) '0') ++ digits
    else
      String.ofList (chars.take (chars.length - places)) ++ "." ++
        String.ofList (chars.drop (chars.length - places))

/-- One digit in front of the point, the others behind it, and the power of ten after an `e`. -/
def scientific (d : Decimal) : String :=
  let power := d.leadingExponent
  let sign := if power < 0 then "-" else ""
  let fraction := (Nat.repr d.digits).toList.drop 1
  let point := if fraction.isEmpty then "" else "."
  String.ofList ((Nat.repr d.digits).toList.take 1) ++ point ++ String.ofList fraction ++
    "e" ++ sign ++ Nat.repr power.natAbs

end Decimal

end Caf
