import Caf.Width

/-!
# Big-endian fields

Every number in a Core Audio Format container is stored most significant byte first. A record is
written as a list of bytes and read from the front of one, and reading hands back the bytes that
follow. The general encoder is `BigEndian.encode`, which gives a natural number a fixed number of
bytes; `BigEndian.decode_encode` and `BigEndian.encode_decode` say that nothing is lost either way.
-/

namespace Caf

/-- The bytes of a record, first byte first. -/
abbrev Bytes := List UInt8

/-- Where `field` of a given `width` stands at an `offset`, `rest` stands behind it. -/
theorem Bytes.drop_add_of_append {bytes field rest : Bytes} {offset width : Nat}
    (h : bytes.drop offset = field ++ rest) (hwidth : field.length = width) :
    bytes.drop (offset + width) = rest := by
  rw [← List.drop_drop, h, ← hwidth, List.drop_left]

namespace BigEndian

/-- The lowest `8 * width` bits of `n`, most significant byte first. -/
def encode : (width : Nat) → (n : Nat) → Bytes
  | 0, _ => []
  | width + 1, n => encode width (n / 256) ++ [UInt8.ofNat (n % 256)]

/-- The number that `bytes` spell, most significant byte first. -/
def decode (bytes : Bytes) : Nat :=
  bytes.foldl (fun n b => 256 * n + b.toNat) 0

@[simp]
theorem length_encode (width n : Nat) : (encode width n).length = width := by
  induction width generalizing n with
  | zero => rfl
  | succ width ih => simp [encode, ih]

@[simp]
theorem decode_nil : decode [] = 0 := rfl

@[simp]
theorem decode_append_singleton (bytes : Bytes) (b : UInt8) :
    decode (bytes ++ [b]) = 256 * decode bytes + b.toNat := by
  simp [decode, List.foldl_append]

/-- Reading what was written gives `n` back, up to the bits that `width` holds. -/
theorem decode_encode (width n : Nat) : decode (encode width n) = n % Nat.pow 256 width := by
  induction width generalizing n with
  | zero => simp [encode, Nat.mod_one]
  | succ width ih =>
    have hb : (UInt8.ofNat (n % 256)).toNat = n % 256 := by
      simp
    have hpow : Nat.pow 256 (width + 1) = 256 * Nat.pow 256 width := Nat.mul_comm ..
    rw [encode, decode_append_singleton, ih, hb, hpow, Nat.mod_mul]
    omega

/-- A number that fits `width` is read back exactly. -/
theorem decode_encode_of_lt {width n : Nat} (h : n < Nat.pow 256 width) :
    decode (encode width n) = n := by
  rw [decode_encode, Nat.mod_eq_of_lt h]

/-- Writing the number that some bytes spell gives those bytes back, for an induction on the last
byte. -/
theorem encode_decode_reverse (bytes : Bytes) :
    encode bytes.length (decode bytes.reverse) = bytes.reverse := by
  induction bytes with
  | nil => rfl
  | cons b bytes ih =>
    have hb : b.toNat < 256 := b.toNat_lt
    have hdiv : (256 * decode bytes.reverse + b.toNat) / 256 = decode bytes.reverse := by omega
    have hmod : (256 * decode bytes.reverse + b.toNat) % 256 = b.toNat := by omega
    rw [List.reverse_cons, List.length_cons, decode_append_singleton, encode, hdiv, hmod, ih]
    simp

/-- Writing the number that `bytes` spell gives `bytes` back. -/
theorem encode_decode (bytes : Bytes) : encode bytes.length (decode bytes) = bytes := by
  have h := encode_decode_reverse bytes.reverse
  simpa using h

/-- The number that `bytes` spell fits as many bytes. -/
theorem decode_lt (bytes : Bytes) : decode bytes < Nat.pow 256 bytes.length := by
  rw [← encode_decode bytes, decode_encode, length_encode]
  exact Nat.mod_lt _ (Nat.pow_pos (by decide))

end BigEndian

namespace Field

/-- The first `width` bytes and the rest, or nothing when there are fewer. -/
def split? (width : Nat) (bytes : Bytes) : Option (Bytes × Bytes) :=
  if width ≤ bytes.length then some (bytes.take width, bytes.drop width) else none

/-- The `field` that is split off and the `rest` that remains make up the input. -/
theorem split?_eq_some_iff {width : Nat} {bytes field rest : Bytes} :
    split? width bytes = some (field, rest) ↔ field.length = width ∧ bytes = field ++ rest := by
  unfold split?
  constructor
  · intro h
    split at h
    · rename_i hle
      obtain ⟨rfl, rfl⟩ := Prod.mk.inj (Option.some.inj h)
      exact ⟨by simp [Nat.min_eq_left hle], (List.take_append_drop width bytes).symm⟩
    · exact absurd h (by simp)
  · rintro ⟨rfl, rfl⟩
    simp

/-- A field of `width` is missing exactly when there are too few bytes. -/
theorem split?_eq_none_iff {width : Nat} {bytes : Bytes} :
    split? width bytes = none ↔ bytes.length < width := by
  unfold split?
  split <;> simp <;> omega

/-- A type of numbers that fill a field of `width` bytes. -/
class Word (α : Type) where
  /-- How many bytes a field has. -/
  width : Nat
  /-- The number. -/
  toNat : α → Nat
  /-- The number, up to the bits that the field holds. -/
  ofNat : Nat → α
  /-- Every number fits its field. -/
  toNat_lt : ∀ x, toNat x < Nat.pow 256 width
  /-- Nothing is lost of a number that fits. -/
  toNat_ofNat : ∀ {n}, n < Nat.pow 256 width → toNat (ofNat n) = n
  /-- Numbers are told apart by their values. -/
  ofNat_toNat : ∀ x, ofNat (toNat x) = x

instance : Word UInt16 where
  width := 2
  toNat := UInt16.toNat
  ofNat := UInt16.ofNat
  toNat_lt := UInt16.toNat_lt
  toNat_ofNat h := UInt16.toNat_ofNat_of_lt' h
  ofNat_toNat _ := UInt16.ofNat_toNat

instance : Word UInt32 where
  width := 4
  toNat := UInt32.toNat
  ofNat := UInt32.ofNat
  toNat_lt := UInt32.toNat_lt
  toNat_ofNat h := UInt32.toNat_ofNat_of_lt' h
  ofNat_toNat _ := UInt32.ofNat_toNat

instance : Word UInt64 where
  width := 8
  toNat := UInt64.toNat
  ofNat := UInt64.ofNat
  toNat_lt := UInt64.toNat_lt
  toNat_ofNat h := UInt64.toNat_ofNat_of_lt' h
  ofNat_toNat _ := UInt64.ofNat_toNat

section

variable {α : Type} [Word α]

/-- The field of `x`, as many bytes as `Word.width` says. -/
def be (x : α) : Bytes := BigEndian.encode (Word.width α) (Word.toNat x)

/-- Reads a field from the front of `bytes`. -/
def be? (bytes : Bytes) : Option (α × Bytes) :=
  (split? (Word.width α) bytes).map fun (field, rest) =>
    (Word.ofNat (BigEndian.decode field), rest)

@[simp]
theorem length_be (x : α) : (be x).length = Word.width α := BigEndian.length_encode ..

/-- What is written for `x` is read back, and nothing of `rest` is touched. -/
@[simp]
theorem be?_append (x : α) (rest : Bytes) : be? (be x ++ rest) = some (x, rest) := by
  have hsplit : split? (Word.width α) (be x ++ rest) = some (be x, rest) :=
    split?_eq_some_iff.2 ⟨length_be x, rfl⟩
  have hx : BigEndian.decode (be x) = Word.toNat x :=
    BigEndian.decode_encode_of_lt (Word.toNat_lt x)
  simp only [be?, hsplit, Option.map_some, hx, Word.ofNat_toNat]

/-- From too few bytes no field is read. -/
theorem be?_of_short {bytes : Bytes} (h : bytes.length < Word.width α) :
    (be? bytes : Option (α × Bytes)) = none := by
  rw [be?, split?_eq_none_iff.2 h, Option.map_none]

/-- Every byte string as long as a field is what `be` writes of some number. -/
theorem exists_be {bytes : Bytes} (h : bytes.length = Word.width α) : ∃ x : α, bytes = be x := by
  refine ⟨Word.ofNat (BigEndian.decode bytes), ?_⟩
  have hlt := BigEndian.decode_lt bytes
  rw [h] at hlt
  rw [be, Word.toNat_ofNat hlt, ← h, BigEndian.encode_decode]

end

/-- A 16-bit field. -/
abbrev be16 : UInt16 → Bytes := be

/-- A 32-bit field. -/
abbrev be32 : UInt32 → Bytes := be

/-- A 64-bit field. -/
abbrev be64 : UInt64 → Bytes := be

/-- Reads a 16-bit field from the front. -/
abbrev be16? : Bytes → Option (UInt16 × Bytes) := be?

/-- Reads a 32-bit field from the front. -/
abbrev be32? : Bytes → Option (UInt32 × Bytes) := be?

/-- Reads a 64-bit field from the front. -/
abbrev be64? : Bytes → Option (UInt64 × Bytes) := be?

end Field

end Caf
