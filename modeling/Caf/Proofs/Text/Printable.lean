import Caf.Decimal.Text
import Caf.Text.Hex
import Caf.Text.Pad

/-!
# Printable text

A text is printable when it has no characters but the printable ones of ASCII, the blank among
them. Such a text stays on its line and sends no commands to a terminal. The numbers of a report are
printable in each of their forms, and so is what is put together from printable texts.

## Main definitions

* `Printable`: no other characters than the printable ones of ASCII.

## Main results

* `printable_append`: a text is printable when its parts are;
* `printable_repr`, `printable_toString_int`, `Hex.printable_ofNat`, `Binary64.printable_fixed`:
  numbers are printable.
-/

namespace Caf

/-- A text of printable ASCII characters, the blank included. -/
def Printable (text : String) : Prop :=
  ∀ c ∈ text.toList, ' ' ≤ c ∧ c ≤ '~'

/-- Whether a text is printable is found out by looking at its characters. -/
instance : DecidablePred Printable := fun text =>
  List.decidableBAll (fun c => ' ' ≤ c ∧ c ≤ '~') text.toList

@[simp]
theorem printable_append {front back : String} :
    Printable (front ++ back) ↔ Printable front ∧ Printable back := by
  simp only [Printable, String.toList_append, List.forall_mem_append]

@[simp]
theorem printable_ofList {cs : List Char} :
    Printable (String.ofList cs) ↔ ∀ c ∈ cs, ' ' ≤ c ∧ c ≤ '~' := by
  rw [Printable, String.toList_ofList]

/-- A printable text is one line. -/
theorem Printable.newline_not_mem {text : String} (h : Printable text) : '\n' ∉ text.toList := by
  intro hmem
  exact absurd (h _ hmem).1 (by decide)

/-! ## Numbers -/

/-- Every digit is printable, also the sign that stands for a digit out of range. -/
theorem printable_digitChar (digit : Nat) : ' ' ≤ digit.digitChar ∧ digit.digitChar ≤ '~' := by
  by_cases hdigit : digit < 16
  · revert digit
    decide
  · rw [Nat.digitChar_eq_star.2 (Nat.le_of_not_lt hdigit)]
    decide

/-- The digits of `n` are digits, whatever the `base` is. -/
theorem exists_digit_of_mem_toDigits {base n : Nat} {c : Char} (hbase : 1 < base)
    (h : c ∈ Nat.toDigits base n) : ∃ digit, c = Nat.digitChar digit := by
  -- The last digit comes off the end, and a smaller number is left.
  induction n using Nat.strongRecOn with
  | ind n ih =>
    rw [Nat.toDigits_eq_if hbase] at h
    split at h
    · exact ⟨n, List.mem_singleton.1 h⟩
    · rename_i hlarge
      rcases List.mem_append.1 h with h | h
      · exact ih (n / base) (Nat.div_lt_self (by omega) hbase) h
      · exact ⟨n % base, List.mem_singleton.1 h⟩

theorem printable_toDigits {base n : Nat} (hbase : 1 < base) :
    Printable (String.ofList (Nat.toDigits base n)) := by
  rw [printable_ofList]
  intro c hc
  obtain ⟨digit, rfl⟩ := exists_digit_of_mem_toDigits hbase hc
  exact printable_digitChar digit

@[simp]
theorem printable_repr (n : Nat) : Printable n.repr :=
  printable_toDigits (by decide)

@[simp]
theorem printable_toString_int (n : Int) : Printable (toString n) := by
  rw [Int.toString_eq_repr, Int.repr_eq_if]
  split
  · exact printable_repr _
  · exact printable_append.2 ⟨by decide, printable_repr _⟩

@[simp]
theorem Hex.printable_ofNat (n : Nat) : Printable (Hex.ofNat n) :=
  printable_toDigits (by decide)

/-! ## Padding and decimals -/

/-- Filling up repeats one printable character. -/
theorem printable_replicate (n : Nat) {c : Char} (hc : ' ' ≤ c ∧ c ≤ '~') :
    Printable (String.ofList (List.replicate n c)) := by
  rw [printable_ofList]
  intro c' hc'
  rw [List.eq_of_mem_replicate hc']
  exact hc

@[simp]
theorem printable_padLeft (width : Nat) {text : String} :
    Printable (padLeft width text) ↔ Printable text := by
  rw [padLeft, printable_append]
  exact and_iff_right (printable_replicate _ (by decide))

namespace Binary64

theorem printable_signText (negative : Bool) : Printable (signText negative) := by
  cases negative <;> decide

theorem printable_fixedQuotient (places num den : Nat) :
    Printable (fixedQuotient places num den) := by
  have hzeros (n : Nat) : Printable (String.ofList (List.replicate n '0')) :=
    printable_replicate n (by decide)
  have hpoint : Printable "." := by decide
  simp only [fixedQuotient, printable_append, printable_repr, hzeros, hpoint, and_self]

/-- A number with a fixed number of decimal `places` is printable, infinities and patterns that are
not numbers included. -/
@[simp]
theorem printable_fixed (places : Nat) (x : Binary64) : Printable (x.fixed places) := by
  rw [fixed]
  split
  · decide
  · exact printable_append.2 ⟨printable_signText _, by decide⟩
  · exact printable_append.2 ⟨printable_signText _, printable_fixedQuotient _ _ _⟩

end Binary64

end Caf
