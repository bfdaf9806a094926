import Caf.Rounding
import Caf.Width

/-!
# 64-bit floating point numbers

A number in the IEEE 754 binary64 format is kept as its bit pattern. `Binary64.value` reads the
pattern as an exact number, a mantissa times a power of two, and `Binary64.nearest` packs the
pattern nearest to a quotient of natural numbers. Everything here is exact arithmetic on natural
numbers, so each of the 2^64 patterns is accounted for.
-/

namespace Caf

/-- A bit pattern of the binary64 format. -/
structure Binary64 where
  /-- Sign, eleven exponent bits and fifty-two fraction bits. -/
  bits : UInt64
  deriving DecidableEq, Repr, Inhabited

namespace Binary64

/-- What a bit pattern stands for. -/
inductive Value where
  /-- Not a number. -/
  | nan
  /-- Infinitely large, of either sign. -/
  | infinite (negative : Bool)
  /-- The number `mantissa * 2 ^ exponent`, with a sign that zero has too. -/
  | finite (negative : Bool) (mantissa : Nat) (exponent : Int)
  deriving DecidableEq, Repr

/-- The number that the bit pattern `x` stands for. -/
def value (x : Binary64) : Value :=
  let n := x.bits.toNat
  let negative := n / 2 ^ 63 == 1
  let scale : Nat := n / 2 ^ 52 % 2 ^ 11
  let fraction := n % 2 ^ 52
  if scale = 2047 then
    if fraction = 0 then .infinite negative else .nan
  else if scale = 0 then .finite negative fraction (-1074)
  else .finite negative (fraction + 2 ^ 52) ((scale : Int) - 1075)

/-- The product `mantissa * 2 ^ exponent` as a quotient of natural numbers. -/
def ratio (mantissa : Nat) : (exponent : Int) → Nat × Nat
  | .ofNat k => (mantissa * Nat.pow 2 k, 1)
  | .negSucc k => (mantissa, Nat.pow 2 (k + 1))

/-- The whole number nearest to `mantissa * 2 ^ exponent`; a half goes up. -/
def roundToNat (mantissa : Nat) (exponent : Int) : Nat :=
  let (num, den) := ratio mantissa exponent
  roundDiv .up num den

/-- The pattern of positive infinity. -/
def infinity : Binary64 := ⟨0x7ff0000000000000⟩

/-- The pattern nearest to `num / den`, a tie going to the even mantissa. -/
def nearest (num den : Nat) : Binary64 :=
  if num = 0 then ⟨0⟩
  else
    -- The lengths of the two numbers give the power of two, or one too many.
    let guess : Int := (num.log2 : Int) - den.log2
    let (top, bottom) := ratio 1 guess
    let exponent := if den * top ≤ num * bottom then guess else guess - 1
    -- Below the smallest normal power the mantissa loses places instead.
    let exponent := max exponent (-1022)
    let (up, down) := ratio 1 (52 - exponent)
    let mantissa := roundDiv .toEven (num * up) (den * down)
    -- The leading bit of the mantissa adds one to the exponent field, and a mantissa that was
    -- rounded up to the next power of two adds two.
    let bits := (exponent + 1022).toNat * 2 ^ 52 + mantissa
    if bits < infinity.bits.toNat then ⟨UInt64.ofNat bits⟩ else infinity

/-- The natural number `n` as the nearest pattern; exact up to 2^53. -/
def ofNat (n : Nat) : Binary64 :=
  nearest n 1

/-- The quotient `n / d`, where `n` and `d` are each taken as the nearest pattern first. -/
def quotient (n d : Nat) : Binary64 :=
  match (ofNat n).value, (ofNat d).value with
  | .finite _ m e, .finite _ m' e' =>
    let (num, den) := ratio m e
    let (num', den') := ratio m' e'
    nearest (num * den') (den * num')
  | _, _ => infinity

end Binary64

end Caf
