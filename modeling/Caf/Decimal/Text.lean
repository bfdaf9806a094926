import Caf.Decimal.Shortest

/-!
# Decimal text of binary64 numbers

Three texts are in use. A report of a header shows a rate with three decimal places; an error
message shows a rate with the fewest digits that read back, always written out; a number in a JSON
document has the fewest digits too, but turns to powers of ten when it is very small or very large.
-/

namespace Caf.Binary64

/-- The sign of a number as text. -/
def signText (negative : Bool) : String :=
  if negative then "-" else ""

/-- The quotient `num / den` with as many decimal places as `places`, a tie going to the even digit.
-/
def fixedQuotient (places num den : Nat) : String :=
  let scaled := roundDiv .toEven (num * Nat.pow 10 places) den
  let fraction := Nat.repr (scaled % Nat.pow 10 places)
  Nat.repr (scaled / Nat.pow 10 places) ++ "." ++
    String.ofList (List.replicate (places - fraction.length) '0') ++ fraction

/-- The exact value of `x` rounded to as many decimal places as `places`. -/
def fixed (places : Nat) (x : Binary64) : String :=
  match x.value with
  | .nan => "NaN"
  | .infinite negative => signText negative ++ "inf"
  | .finite negative mantissa exponent =>
    let (num, den) := ratio mantissa exponent
    signText negative ++ fixedQuotient places num den

/-- The fewest digits that read back as `x`, written out without a power of ten; a whole number has
no point. -/
def plain (x : Binary64) : String :=
  match x.value with
  | .nan => "NaN"
  | .infinite negative => signText negative ++ "inf"
  | .finite negative mantissa exponent =>
    signText negative ++
      if mantissa = 0 then "0" else (Decimal.shortest .up mantissa exponent).positional

/-- The fewest digits that read back as `x`, as a JSON number: written out while the first digit
stands between the fifth decimal place and the sixteenth place before the point, and always with a
point then. JSON has no other numbers than finite ones, so the rest is `null`. -/
def json (x : Binary64) : String :=
  match x.value with
  | .nan => "null"
  | .infinite _ => "null"
  | .finite negative mantissa exponent =>
    signText negative ++
      if mantissa = 0 then "0.0"
      else
        let d := Decimal.shortest .toEven mantissa exponent
        if -5 ≤ d.leadingExponent ∧ d.leadingExponent ≤ 15 then
          if 0 ≤ d.exponent then d.positional ++ ".0" else d.positional
        else d.scientific

end Caf.Binary64
