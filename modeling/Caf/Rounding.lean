/-!
# Rounding a quotient

`roundDiv` gives the whole number nearest to a quotient of natural numbers; the rule for a quotient
that lies halfway is an argument.
-/

namespace Caf

/-- Where a value halfway between two neighbours goes. -/
inductive Tie where
  /-- To the even neighbour. -/
  | toEven
  /-- To the larger neighbour. -/
  | up
  deriving DecidableEq, Repr

/-- The whole number nearest to `num / den`; `tie` decides between two that are equally near. -/
def roundDiv (tie : Tie) (num den : Nat) : Nat :=
  let below := num / den
  let twice := 2 * (num % den)
  if twice < den then below
  else if den < twice then below + 1
  else
    match tie with
    | .up => below + 1
    | .toEven => below + below % 2

/-- The quotient `n * den / den` is whole, and it is not changed. -/
theorem roundDiv_mul_left (tie : Tie) (n : Nat) {den : Nat} (h : 0 < den) :
    roundDiv tie (n * den) den = n := by
  simp [roundDiv, h]

end Caf
