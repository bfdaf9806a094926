import Caf.Width

/-!
# Defects

Arithmetic and bookkeeping that leave their range. Sums and products that have to fit a width are
taken by `addWithin` and `multiplyWithin`, which say so when they do not.
-/

namespace Caf

/-- Arithmetic or bookkeeping that left its range. A defect is not an answer about the input: the
operation cannot go on. -/
inductive Defect where
  /-- A sum does not fit its width. -/
  | addOverflow
  /-- A product does not fit its width. -/
  | multiplyOverflow
  /-- A quotient with divisor zero. -/
  | divideByZero
  /-- A piece of some bytes that ends behind them. -/
  | pieceBeyondEnd (stop length : Nat)
  /-- The sample data was about to move from one offset to another. -/
  | relocated (old new : Nat)
  deriving DecidableEq, Repr

/-- The wording of a defect. -/
def Defect.message : Defect → String
  | .addOverflow => "attempt to add with overflow"
  | .multiplyOverflow => "attempt to multiply with overflow"
  | .divideByZero => "attempt to divide by zero"
  | .pieceBeyondEnd stop length =>
    "range end index " ++ toString stop ++ " out of range for slice of length " ++ toString length
  | .relocated .. => "data offset is fixed once located and cannot be relocated"

/-- The sum `a + b`, which has to fit `width` bits. -/
def addWithin (width a b : Nat) : Except Defect Nat :=
  if a + b < Nat.pow 2 width then .ok (a + b) else .error .addOverflow

/-- The product `a * b`, which has to fit `width` bits. -/
def multiplyWithin (width a b : Nat) : Except Defect Nat :=
  if a * b < Nat.pow 2 width then .ok (a * b) else .error .multiplyOverflow

end Caf
