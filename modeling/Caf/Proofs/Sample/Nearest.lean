import Mathlib.Data.Rat.Floor
import Mathlib.Tactic.FieldSimp
import Mathlib.Tactic.Linarith
import Mathlib.Tactic.Positivity
import Mathlib.Tactic.Ring
import Caf.Proofs.Sample.Rate

/-!
# The whole number nearest to a pattern

A pattern of the binary64 format stands for a rational number, unless it is infinite or no number at
all. `Binary64.rational?` is that number by the fields of the format: the sign, the exponent with
its bias, and the fraction behind the leading bit, which subnormal numbers do not have. A rate that
is read is the nearest whole number to it, a half going away from zero, where that number is
positive and fits thirty-two bits. Numbers below zero never do.

## Main definitions

* `Binary64.rational?`: the rational number that a pattern stands for;
* `roundAway`: the nearest whole number, a half going away from zero.

## Main results

* `Binary64.rational?_eq`: the exact value that rates are read from is that rational number;
* `roundDiv_up_eq_floor`: rounding a quotient of natural numbers up is rounding the rational number;
* `Header.wholeRate?_eq_some_iff`: which patterns are rates, and of which whole number.
-/

namespace Caf

/-- The whole number nearest to `q`; a half goes away from zero. -/
def roundAway (q : ℚ) : ℤ :=
  if q < 0 then ⌈q - 1 / 2⌉ else ⌊q + 1 / 2⌋

/-- Nothing that is not positive is rounded to a positive number. -/
theorem roundAway_nonpos {q : ℚ} (h : q ≤ 0) : roundAway q ≤ 0 := by
  unfold roundAway
  split
  · apply Int.ceil_le.2
    push_cast
    linarith
  · rw [Int.floor_le_iff]
    push_cast
    linarith

/-- What is rounded up lies less than half a unit above `num / den`, or half a unit. -/
theorem roundDiv_up_bounds (num : Nat) {den : Nat} (h : 0 < den) :
    2 * (den * roundDiv .up num den) ≤ 2 * num + den ∧
      2 * num + den < 2 * (den * (roundDiv .up num den + 1)) := by
  have hdiv := Nat.div_add_mod num den
  have hmod := Nat.mod_lt num h
  unfold roundDiv
  dsimp only
  split
  · rw [Nat.mul_add]
    omega
  -- Half a unit and more goes up, so that the two cases are one.
  · split <;> simp only [Nat.mul_add] <;> omega

/-- Rounding `num / den` up as a quotient of natural numbers is rounding the rational number. -/
theorem roundDiv_up_eq_floor (num : Nat) {den : Nat} (h : 0 < den) :
    (roundDiv .up num den : ℤ) = ⌊(num / den : ℚ) + 1 / 2⌋ := by
  obtain ⟨hlow, hhigh⟩ := roundDiv_up_bounds num h
  have hden : (0 : ℚ) < den := by exact_mod_cast h
  have hlow' : (2 : ℚ) * (den * roundDiv .up num den) ≤ 2 * num + den := by exact_mod_cast hlow
  have hhigh' : (2 : ℚ) * num + den < 2 * (den * (roundDiv .up num den + 1)) := by
    exact_mod_cast hhigh
  have hsum : (num / den : ℚ) + 1 / 2 = (2 * num + den) / (2 * den) := by
    field_simp
  symm
  rw [Int.floor_eq_iff, hsum, le_div_iff₀ (by positivity), div_lt_iff₀ (by positivity)]
  push_cast
  constructor <;> linarith

namespace Binary64

/-- The rational number that the pattern `x` stands for: a sign, a power of two by the exponent
field, and a fraction behind a leading bit. The least exponent is that of the numbers without a
leading bit, and the largest one has no numbers. -/
def rational? (x : Binary64) : Option ℚ :=
  let sign : ℚ := if x.bits.toBitVec.getLsbD 63 then -1 else 1
  let exponent := (x.bits.toBitVec.extractLsb' 52 11).toNat
  let fraction : ℚ := (x.bits.toBitVec.extractLsb' 0 52).toNat / 2 ^ 52
  if exponent = 2047 then none
  else if exponent = 0 then some (sign * (fraction * 2 ^ (-1022 : ℤ)))
  else some (sign * ((1 + fraction) * 2 ^ ((exponent : ℤ) - 1023)))

/-- The rational number of an exact value. -/
def Value.rational? : Value → Option ℚ
  | .nan => none
  | .infinite _ => none
  | .finite negative mantissa exponent =>
    some ((if negative then -1 else 1) * (mantissa * 2 ^ exponent))

/-- The `value` of a pattern is the rational number that the pattern stands for. -/
theorem rational?_eq (x : Binary64) : x.rational? = x.value.rational? := by
  -- The fields of the pattern are taken apart by division in one place and by bits in the other.
  have hsign : x.bits.toBitVec.getLsbD 63 = (x.bits.toNat / 2 ^ 63 == 1) := by
    have hlt := x.bits.toNat_lt
    have hbit : x.bits.toNat / 2 ^ 63 = 0 ∨ x.bits.toNat / 2 ^ 63 = 1 := by omega
    rw [BitVec.getLsbD, UInt64.toNat_toBitVec, Nat.testBit_eq_decide_div_mod_eq]
    rcases hbit with hbit | hbit <;> rw [hbit] <;> rfl
  have hexponent : (x.bits.toBitVec.extractLsb' 52 11).toNat = x.bits.toNat / 2 ^ 52 % 2 ^ 11 := by
    rw [BitVec.extractLsb'_toNat, UInt64.toNat_toBitVec, Nat.shiftRight_eq_div_pow]
  have hfraction : (x.bits.toBitVec.extractLsb' 0 52).toNat = x.bits.toNat % 2 ^ 52 := by
    rw [BitVec.extractLsb'_toNat, UInt64.toNat_toBitVec, Nat.shiftRight_zero]
  rw [rational?, value]
  simp only [hsign, hexponent, hfraction]
  generalize x.bits.toNat / 2 ^ 52 % 2 ^ 11 = scale
  generalize x.bits.toNat % 2 ^ 52 = fraction
  generalize (x.bits.toNat / 2 ^ 63 == 1) = negative
  by_cases hlast : scale = 2047
  · simp only [if_pos hlast]
    split <;> rfl
  simp only [if_neg hlast]
  by_cases hfirst : scale = 0
  case pos =>
    have hpower : (2 : ℚ) ^ (-1022 : ℤ) = 2 ^ 52 * 2 ^ (-1074 : ℤ) := by
      rw [← zpow_natCast, ← zpow_add₀ two_ne_zero]
      norm_num
    simp only [if_pos hfirst, Value.rational?, hpower, Option.some.injEq]
    field_simp
  case neg =>
    have hpower : (2 : ℚ) ^ ((scale : ℤ) - 1023) = 2 ^ 52 * 2 ^ ((scale : ℤ) - 1075) := by
      rw [← zpow_natCast, ← zpow_add₀ two_ne_zero]
      congr 1
      push_cast
      ring
    simp only [if_neg hfirst, Value.rational?, hpower, Option.some.injEq]
    push_cast
    field_simp
    ring

/-- Rounding `mantissa * 2 ^ exponent` is rounding the rational number. -/
theorem roundToNat_eq_floor (mantissa : Nat) (exponent : ℤ) :
    (roundToNat mantissa exponent : ℤ) = ⌊(mantissa * 2 ^ exponent : ℚ) + 1 / 2⌋ := by
  cases exponent with
  | ofNat k =>
    have hround := roundDiv_up_eq_floor (mantissa * Nat.pow 2 k) Nat.one_pos
    rw [show Nat.pow 2 k = 2 ^ k from rfl] at hround
    push_cast at hround
    rw [div_one] at hround
    rw [Int.ofNat_eq_natCast, zpow_natCast]
    exact hround
  | negSucc k =>
    have hround := roundDiv_up_eq_floor mantissa (Nat.two_pow_pos (k + 1))
    push_cast at hround
    rw [zpow_negSucc, ← div_eq_mul_inv]
    exact hround

end Binary64

/-- A pattern `field` is a rate where the number that it stands for is rounded to a positive number
of thirty-two bits, and it is that number then. -/
theorem Header.wholeRate?_eq_some_iff {field : Binary64} {rate : UInt32} :
    wholeRate? field = some rate ↔
      ∃ q, field.rational? = some q ∧ 1 ≤ roundAway q ∧ roundAway q = rate.toNat := by
  rw [field.rational?_eq, wholeRate?]
  cases field.value with
  | nan => simp [Binary64.Value.rational?]
  | infinite negative => simp [Binary64.Value.rational?]
  | finite negative mantissa exponent =>
    have hpos : (0 : ℚ) ≤ mantissa * 2 ^ exponent :=
      mul_nonneg (Nat.cast_nonneg _) (zpow_nonneg two_pos.le _)
    -- A negative value rounds to zero at most, which is below every rate.
    cases negative with
    | true =>
      have hneg : (-1 : ℚ) * (mantissa * 2 ^ exponent) ≤ 0 := by linarith
      have hnone := roundAway_nonpos hneg
      simp only [Binary64.Value.rational?, ↓reduceIte, Option.some.injEq, exists_eq_left']
      constructor
      · intro hrate
        cases hrate
      · rintro ⟨hone, -⟩
        omega
    | false =>
      have hround : roundAway (1 * (mantissa * 2 ^ exponent)) =
          Binary64.roundToNat mantissa exponent := by
        rw [one_mul, roundAway, if_neg (not_lt.2 hpos), Binary64.roundToNat_eq_floor]
      simp only [Binary64.Value.rational?, Bool.false_eq_true, ↓reduceIte, Option.some.injEq,
        exists_eq_left', hround]
      have hlt := rate.toNat_lt
      split
      case isTrue hbounds =>
        rw [Option.some.injEq, ← UInt32.toNat_inj, UInt32.toNat_ofNat_of_lt' hbounds.2]
        omega
      case isFalse hbounds =>
        constructor
        · intro hrate
          cases hrate
        · rintro ⟨hone, hrate⟩
          omega

/-- A pattern `field` is a rate where the number that it stands for is rounded to a number from one
to the largest of thirty-two bits. -/
theorem Header.exists_wholeRate?_iff {field : Binary64} :
    (∃ rate, wholeRate? field = some rate) ↔
      ∃ q, field.rational? = some q ∧ 1 ≤ roundAway q ∧ roundAway q ≤ 2 ^ 32 - 1 := by
  constructor
  · rintro ⟨rate, hrate⟩
    obtain ⟨q, hq, hone, hround⟩ := wholeRate?_eq_some_iff.1 hrate
    have hlt := rate.toNat_lt
    exact ⟨q, hq, hone, by omega⟩
  · rintro ⟨q, hq, hone, hlast⟩
    have hround : roundAway q = (UInt32.ofNat (roundAway q).toNat).toNat := by
      rw [UInt32.toNat_ofNat_of_lt' (by rw [UInt32.size]; omega)]
      omega
    exact ⟨_, wholeRate?_eq_some_iff.2 ⟨q, hq, hone, hround⟩⟩

/-- The pattern of `n` stands for `n`. -/
theorem Binary64.rational?_ofNat {n : Nat} (hpos : 0 < n) (hsmall : n < 2 ^ 53) :
    (ofNat n).rational? = some (n : ℚ) := by
  obtain ⟨k, hk⟩ := Nat.exists_eq_add_of_le (log2_le hpos hsmall)
  have hexponent : (n.log2 : ℤ) - 52 = -(k : ℤ) := by omega
  rw [rational?_eq, value_ofNat hpos hsmall, Value.rational?, hexponent, aligned, hk,
    Nat.add_sub_cancel_left, show Nat.pow 2 k = 2 ^ k from rfl, zpow_neg, zpow_natCast]
  push_cast
  simp

end Caf
