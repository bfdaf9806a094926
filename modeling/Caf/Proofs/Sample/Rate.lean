import Caf.Container.Header

/-!
# Whole rates are stored exactly

A record stores its rate as a binary64 number, while rates are whole numbers of thirty-two bits. The
pattern of a whole number below 2^53 stands for the number itself: the leading bit goes to bit 52,
and the exponent says how far it went. A rate is therefore read back as it was written.

## Main results

* `Binary64.ofNat_eq`: the pattern of a whole number;
* `Binary64.value_ofNat`: what the pattern stands for;
* `Header.wholeRate?_ofNat`: a rate is read back.
-/

namespace Caf

/-- A whole number is its own rounding. -/
theorem roundDiv_one (tie : Tie) (n : Nat) : roundDiv tie n 1 = n := by
  have hwhole := roundDiv_mul_left tie n Nat.one_pos
  rwa [Nat.mul_one] at hwhole

namespace Binary64

variable {n : Nat}

/-- The number `n` with its leading bit moved to bit 52. -/
def aligned (n : Nat) : Nat :=
  n * Nat.pow 2 (52 - n.log2)

theorem log2_le (hpos : 0 < n) (hsmall : n < 2 ^ 53) : n.log2 ≤ 52 :=
  Nat.le_of_lt_succ ((Nat.log2_lt (Nat.ne_of_gt hpos)).2 hsmall)

/-- The leading bit of `aligned n` is bit 52. -/
theorem aligned_bounds (hpos : 0 < n) (hsmall : n < 2 ^ 53) :
    2 ^ 52 ≤ aligned n ∧ aligned n < 2 ^ 53 := by
  have hlog := log2_le hpos hsmall
  have hlow := Nat.pow_add 2 n.log2 (52 - n.log2)
  have hhigh := Nat.pow_add 2 (n.log2 + 1) (52 - n.log2)
  rw [Nat.add_sub_cancel' hlog] at hlow
  rw [Nat.add_right_comm, Nat.add_sub_cancel' hlog] at hhigh
  constructor
  · rw [hlow]
    exact Nat.mul_le_mul_right _ (Nat.log2_self_le (Nat.ne_of_gt hpos))
  · rw [hhigh]
    exact Nat.mul_lt_mul_of_pos_right Nat.lt_log2_self (Nat.two_pow_pos _)

theorem ratio_natCast (mantissa k : Nat) : ratio mantissa (k : Int) = (mantissa * Nat.pow 2 k, 1) :=
  rfl

/-- The pattern of `n` has the logarithm of `n` as its exponent. -/
theorem ofNat_eq (hpos : 0 < n) (hsmall : n < 2 ^ 53) :
    ofNat n = ⟨UInt64.ofNat ((n.log2 + 1022) * 2 ^ 52 + aligned n)⟩ := by
  have hlog := log2_le hpos hsmall
  have hguess : (n.log2 : Int) - (Nat.log2 1 : Nat) = (n.log2 : Nat) := by
    rw [show Nat.log2 1 = 0 by decide]
    exact Int.sub_zero _
  have hshift : (52 : Int) - (n.log2 : Nat) = (52 - n.log2 : Nat) := by
    omega
  have hmax : max (n.log2 : Int) (-1022) = (n.log2 : Nat) := Int.max_eq_left (by omega)
  have hfield : ((n.log2 : Int) + 1022).toNat = n.log2 + 1022 := by
    omega
  have hle : 1 * (1 * Nat.pow 2 n.log2) ≤ n * 1 := by
    rw [Nat.one_mul, Nat.one_mul, Nat.mul_one]
    exact Nat.log2_self_le (Nat.ne_of_gt hpos)
  have hround : roundDiv .toEven (n * (1 * Nat.pow 2 (52 - n.log2))) (1 * 1) = aligned n := by
    rw [Nat.one_mul, Nat.one_mul, roundDiv_one]
    rfl
  have hbits : (n.log2 + 1022) * 2 ^ 52 + aligned n < infinity.bits.toNat := by
    have hbounds := aligned_bounds hpos hsmall
    rw [show infinity.bits.toNat = 2047 * 2 ^ 52 from rfl]
    omega
  rw [ofNat, nearest, if_neg (Nat.ne_of_gt hpos)]
  simp only [hguess, ratio_natCast, if_pos hle, hmax, hshift, hround, hfield, if_pos hbits]

/-- The pattern of `n` stands for `n`. -/
theorem value_ofNat (hpos : 0 < n) (hsmall : n < 2 ^ 53) :
    (ofNat n).value = .finite false (aligned n) ((n.log2 : Int) - 52) := by
  have hlog := log2_le hpos hsmall
  obtain ⟨hlow, hhigh⟩ := aligned_bounds hpos hsmall
  obtain ⟨fraction, hfraction⟩ := Nat.exists_eq_add_of_le hlow
  -- The leading bit of the aligned number adds one to the exponent field.
  have hbits : (ofNat n).bits.toNat = (n.log2 + 1023) * 2 ^ 52 + fraction := by
    rw [ofNat_eq hpos hsmall]
    show (UInt64.ofNat _).toNat = _
    rw [UInt64.toNat_ofNat_of_lt' (by rw [UInt64.size]; omega)]
    omega
  have hsign : ((n.log2 + 1023) * 2 ^ 52 + fraction) / 2 ^ 63 = 0 := by
    omega
  have hscale : ((n.log2 + 1023) * 2 ^ 52 + fraction) / 2 ^ 52 % 2 ^ 11 = n.log2 + 1023 := by
    omega
  have hmod : ((n.log2 + 1023) * 2 ^ 52 + fraction) % 2 ^ 52 = fraction := by
    omega
  have hfinite : n.log2 + 1023 ≠ 2047 := by omega
  have hnormal : n.log2 + 1023 ≠ 0 := by omega
  have hexponent : ((n.log2 + 1023 : Nat) : Int) - 1075 = (n.log2 : Int) - 52 := by
    omega
  rw [value, hbits]
  simp only [hsign, hscale, hmod, if_neg hfinite, if_neg hnormal, hexponent, hfraction,
    Nat.add_comm fraction]
  rfl

/-- A whole number is rounded to itself. -/
theorem roundToNat_aligned (hpos : 0 < n) (hsmall : n < 2 ^ 53) :
    roundToNat (aligned n) ((n.log2 : Int) - 52) = n := by
  have hlog := log2_le hpos hsmall
  obtain ⟨k, hk⟩ := Nat.exists_eq_add_of_le hlog
  have hexponent : (n.log2 : Int) - 52 = -(k : Int) := by
    omega
  have haligned : aligned n = n * Nat.pow 2 k := by
    rw [aligned, hk, Nat.add_sub_cancel_left]
  rw [hexponent, haligned, roundToNat]
  cases k with
  | zero =>
    show roundDiv .up (n * 1 * 1) 1 = n
    rw [roundDiv_one, Nat.mul_one, Nat.mul_one]
  | succ k => exact roundDiv_mul_left .up n (Nat.two_pow_pos (k + 1))

end Binary64

/-- A `rate` is read back as it was written. -/
theorem Header.wholeRate?_ofNat {rate : UInt32} (h : rate ≠ 0) :
    wholeRate? (.ofNat rate.toNat) = some rate := by
  have hpos : 0 < rate.toNat := Nat.pos_of_ne_zero fun hzero => h (UInt32.toNat_inj.1 hzero)
  have hlt : rate.toNat < 2 ^ 32 := rate.toNat_lt
  have hsmall : rate.toNat < 2 ^ 53 := by omega
  rw [wholeRate?, Binary64.value_ofNat hpos hsmall]
  simp only [Binary64.roundToNat_aligned hpos hsmall]
  rw [if_pos ⟨hpos, hlt⟩, UInt32.ofNat_toNat]

/-- A `rate` that has been read is not zero. -/
theorem Header.ne_zero_of_wholeRate? {rate : UInt32} {field : Binary64}
    (h : wholeRate? field = some rate) : rate ≠ 0 := by
  unfold wholeRate? at h
  split at h
  case h_4 mantissa exponent _ =>
    simp only at h
    split at h
    case isTrue hbounds =>
      obtain rfl := Option.some.inj h
      rintro hzero
      have hrounded := UInt32.toNat_ofNat_of_lt' hbounds.2
      rw [hzero] at hrounded
      have hpos := hbounds.1
      rw [← hrounded] at hpos
      exact absurd hpos (by decide)
    case isFalse => cases h
  all_goals cases h

end Caf
