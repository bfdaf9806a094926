import Caf.Proofs.Text.Printable
import Caf.Record.Chunk

/-!
# What a code is shown with

A code is shown byte by byte, a printable byte as itself and every other byte as an escape of four
characters. The backslash is a printable byte and is not escaped, so that four bytes in a row can be
shown as one byte is: the bytes of the text `\x01` look like the byte 1. In a longer run of bytes
such an imitation can be made up for somewhere else. Four bytes are too few for that: the imitation
takes all of them, and what is shown then has four characters, where a code with an escape has at
least seven. Hence no two codes are shown alike.

## Main definitions

* `FourCC.spell`: the characters that a run of bytes is shown with.

## Main results

* `FourCC.spell_drop_of_append`: what is shown without a backslash is shown byte by byte;
* `FourCC.eq_of_spell_eq`: up to four bytes are told by what they are shown with;
* `FourCC.printable_display`: a code is shown with printable characters;
* `FourCC.display_unambiguous`: no two codes, and no two types of chunks, are shown alike.
-/

namespace Caf

/-! ## Hexadecimal digits -/

namespace Hex

theorem digit_inj {m n : Nat} (hm : m < 16) (hn : n < 16) (h : digit m = digit n) : m = n := by
  have hdigits : ∀ m < 16, ∀ n < 16, digit m = digit n → m = n := by decide
  exact hdigits m hm n hn h

theorem printable_digit {n : Nat} (hn : n < 16) : ' ' ≤ digit n ∧ digit n ≤ '~' := by
  revert n
  decide

/-- No escape starts with a digit. -/
theorem backslash_ne_digit {n : Nat} (hn : n < 16) : '\\' ≠ digit n := by
  revert n
  decide

/-- The two digits of `ofByte` tell the byte. -/
theorem ofByte_inj {a b : UInt8} (h : ofByte a = ofByte b) : a = b := by
  have ha := a.toNat_lt
  have hb := b.toNat_lt
  obtain ⟨hhigh, h⟩ := List.cons.inj h
  have hdiv := digit_inj (by omega) (by omega) hhigh
  have hmod := digit_inj (by omega) (by omega) (List.cons.inj h).1
  exact UInt8.toNat_inj.1 (by omega)

end Hex

namespace FourCC

/-! ## One byte -/

/-- A printable byte is the number of its character. -/
theorem toNat_ofNat_of_printable {b : UInt8} (hb : isPrintable b) :
    (Char.ofNat b.toNat).toNat = b.toNat := by
  have hascii : ∀ n < 127, (Char.ofNat n).toNat = n := by decide
  simp only [isPrintable, Bool.and_eq_true, decide_eq_true_eq] at hb
  exact hascii _ (by omega)

theorem byteText_of_printable {b : UInt8} (hb : isPrintable b) :
    byteText b = [Char.ofNat b.toNat] :=
  if_pos hb

theorem byteText_of_unprintable {b : UInt8} (hb : ¬ isPrintable b) :
    byteText b = '\\' :: 'x' :: Hex.ofByte b :=
  if_neg hb

/-- A byte is shown with printable characters, the printable ones being shown as themselves. -/
theorem printable_byteText (b : UInt8) : ∀ c ∈ byteText b, ' ' ≤ c ∧ c ≤ '~' := by
  by_cases hb : isPrintable b
  · rw [byteText_of_printable hb]
    intro c hc
    have htoNat := toNat_ofNat_of_printable hb
    rw [List.mem_singleton.1 hc]
    simp only [isPrintable, Bool.and_eq_true, decide_eq_true_eq] at hb
    show 32 ≤ (Char.ofNat b.toNat).toNat ∧ (Char.ofNat b.toNat).toNat ≤ 126
    rwa [htoNat]
  · rw [byteText_of_unprintable hb]
    have hlt := b.toNat_lt
    intro c hc
    simp only [Hex.ofByte, List.mem_cons, List.not_mem_nil, or_false] at hc
    rcases hc with rfl | rfl | rfl | rfl
    · decide
    · decide
    · exact Hex.printable_digit (by omega)
    · exact Hex.printable_digit (by omega)

/-! ## Runs of bytes -/

/-- The characters that a run of `bytes` is shown with. -/
def spell (bytes : Bytes) : List Char :=
  bytes.flatMap byteText

@[simp]
theorem spell_nil : spell [] = [] := rfl

@[simp]
theorem spell_cons (b : UInt8) (bytes : Bytes) :
    spell (b :: bytes) = byteText b ++ spell bytes := rfl

/-- Every byte is shown with one character at least. -/
theorem length_le_spell (bytes : Bytes) : bytes.length ≤ (spell bytes).length := by
  induction bytes with
  | nil => exact Nat.zero_le _
  | cons b bytes ih =>
    have hone : 1 ≤ (byteText b).length := by
      by_cases hb : isPrintable b
      · exact Nat.le_of_eq (congrArg List.length (byteText_of_printable hb)).symm
      · rw [byteText_of_unprintable hb, List.length_cons]
        omega
    rw [spell_cons, List.length_append, List.length_cons]
    omega

/-- What is shown as `front`, without a backslash, is shown byte by byte, and the bytes behind those
are shown as `rest`. -/
theorem spell_drop_of_append {bytes : Bytes} {front rest : List Char}
    (h : spell bytes = front ++ rest) (hfront : '\\' ∉ front) :
    front.length ≤ bytes.length ∧ spell (bytes.drop front.length) = rest := by
  induction front generalizing bytes with
  | nil => exact ⟨Nat.zero_le _, h⟩
  | cons c front ih =>
    obtain ⟨hc, hfront⟩ : '\\' ≠ c ∧ '\\' ∉ front := by
      rwa [List.mem_cons, not_or] at hfront
    cases bytes with
    | nil => cases h
    | cons b bytes =>
      by_cases hb : isPrintable b
      · rw [spell_cons, byteText_of_printable hb] at h
        obtain ⟨hlength, hrest⟩ := ih (List.cons.inj h).2 hfront
        exact ⟨Nat.succ_le_succ hlength, hrest⟩
      -- An escape would start with a backslash.
      · rw [spell_cons, byteText_of_unprintable hb] at h
        exact absurd (List.cons.inj h).1 hc

/-- A run that starts with a printable byte is not shown like one of the same length that starts
with an escape, as long as no more than three bytes follow. -/
theorem spell_ne_of_escape {a b : UInt8} {as bs : Bytes} (ha : isPrintable a)
    (hb : ¬ isPrintable b) (hlength : as.length = bs.length) (hshort : as.length ≤ 3) :
    spell (a :: as) ≠ spell (b :: bs) := by
  intro h
  have hlt := b.toNat_lt
  rw [spell_cons, spell_cons, byteText_of_printable ha, byteText_of_unprintable hb] at h
  -- The escape is imitated: behind the backslash stand its other characters, one for each byte.
  have hrest : spell as = ('x' :: Hex.ofByte b) ++ spell bs := (List.cons.inj h).2
  have hdigits : '\\' ∉ 'x' :: Hex.ofByte b := by
    simp only [Hex.ofByte, List.mem_cons, List.not_mem_nil, or_false, not_or]
    exact ⟨by decide, Hex.backslash_ne_digit (by omega), Hex.backslash_ne_digit (by omega)⟩
  obtain ⟨hthree, hbehind⟩ := spell_drop_of_append hrest hdigits
  have hwidth : ('x' :: Hex.ofByte b).length = 3 := rfl
  -- That takes up all of the bytes, and none are left for what the other run has behind its escape.
  have hnone : spell bs = [] := by
    rw [← hbehind, List.drop_eq_nil_of_le (by omega), spell_nil]
  have hsome := length_le_spell bs
  rw [hnone, List.length_nil] at hsome
  omega

/-- Up to four bytes are told by what `spell` shows them with. -/
theorem eq_of_spell_eq {as bs : Bytes} (hlength : as.length = bs.length) (hfour : as.length ≤ 4)
    (h : spell as = spell bs) : as = bs := by
  induction as generalizing bs with
  | nil => exact (List.eq_nil_of_length_eq_zero hlength.symm).symm
  | cons a as ih =>
    obtain ⟨b, bs, rfl⟩ := List.exists_cons_of_length_eq_add_one hlength.symm
    have hbehind : as.length = bs.length := Nat.succ.inj hlength
    have hshort : as.length ≤ 3 := Nat.le_of_succ_le_succ hfour
    -- An escape is four characters and a printable byte one: with at most four bytes the mixed
    -- cases cannot meet.
    by_cases ha : isPrintable a <;> by_cases hb : isPrintable b
    · rw [spell_cons, spell_cons, byteText_of_printable ha, byteText_of_printable hb] at h
      obtain ⟨hfirst, hrest⟩ := List.cons.inj h
      have hbyte : a = b := by
        rw [← UInt8.toNat_inj, ← toNat_ofNat_of_printable ha, hfirst, toNat_ofNat_of_printable hb]
      rw [hbyte, ih hbehind (Nat.le_succ_of_le hshort) hrest]
    · exact absurd h (spell_ne_of_escape ha hb hbehind hshort)
    · exact absurd h.symm (spell_ne_of_escape hb ha hbehind.symm (hbehind ▸ hshort))
    · rw [spell_cons, spell_cons, byteText_of_unprintable ha, byteText_of_unprintable hb] at h
      have hescape : Hex.ofByte a ++ spell as = Hex.ofByte b ++ spell bs :=
        (List.cons.inj (List.cons.inj h).2).2
      obtain ⟨hdigits, hrest⟩ := List.append_inj hescape rfl
      rw [Hex.ofByte_inj hdigits, ih hbehind (Nat.le_succ_of_le hshort) hrest]

/-- From five bytes on an imitated escape can be made up for by a real one. -/
example : spell [0x5C, 0x78, 0x30, 0x31, 0x01] = spell [0x01, 0x5C, 0x78, 0x30, 0x31] := by
  decide

/-! ## Codes and types -/

theorem toBytes_inj {a b : FourCC} (h : a.toBytes = b.toBytes) : a = b := by
  cases a
  cases b
  simpa [toBytes] using h

/-- The text of `code` is what its four bytes are shown with. -/
theorem toList_display (code : FourCC) : code.display.toList = spell code.toBytes := by
  rw [display, String.toList_ofList]
  rfl

theorem display_inj {a b : FourCC} (h : a.display = b.display) : a = b := by
  have hspell := congrArg String.toList h
  rw [toList_display, toList_display] at hspell
  exact toBytes_inj (eq_of_spell_eq rfl (Nat.le_refl 4) hspell)

/-- Whatever `code` is, it is shown with printable characters. -/
@[simp]
theorem printable_display (code : FourCC) : Printable code.display := by
  intro c hc
  rw [toList_display] at hc
  obtain ⟨b, -, hb⟩ := List.mem_flatMap.1 hc
  exact printable_byteText b c hb

/-- No two codes `a` and `b` are shown alike, and neither are the types that they name. What is
shown is printable. -/
theorem display_unambiguous (a b : FourCC) :
    (a ≠ b → a.display ≠ b.display ∧
      (ChunkKind.ofCode a).display ≠ (ChunkKind.ofCode b).display) ∧
      Printable a.display ∧ Printable (ChunkKind.ofCode a).display := by
  have hkind (code : FourCC) : (ChunkKind.ofCode code).display = code.display := by
    rw [ChunkKind.display, ChunkKind.code_ofCode]
  rw [hkind a, hkind b]
  have hapart : a ≠ b → a.display ≠ b.display := fun hne h => hne (display_inj h)
  exact ⟨fun hne => ⟨hapart hne, hapart hne⟩, printable_display a, printable_display a⟩

/-- The four bytes that look like an escaped byte are not shown like any code that has that byte. -/
theorem display_unambiguous_of_imitation :
    FourCC.mk 0x5C 0x78 0x30 0x31 ≠ FourCC.mk 0x01 0x78 0x30 0x31 ∧
      (FourCC.mk 0x5C 0x78 0x30 0x31).display = "\\x01" ∧
      (FourCC.mk 0x01 0x78 0x30 0x31).display = "\\x01x01" ∧
      (FourCC.mk 0x5C 0x78 0x30 0x31).display ≠ (FourCC.mk 0x01 0x78 0x30 0x31).display := by
  have hne : FourCC.mk 0x5C 0x78 0x30 0x31 ≠ FourCC.mk 0x01 0x78 0x30 0x31 := by decide
  exact ⟨hne, by decide, by decide, ((display_unambiguous _ _).1 hne).1⟩

end FourCC

end Caf
