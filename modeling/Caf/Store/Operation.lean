import Caf.Error.Basic
import Caf.Run
import Caf.Store.Reading

/-!
# Operations with errors of the library

The failures of a medium get their meaning from where they happen: running out of bytes inside a
record is a fault in the layout, and any other failure stays what it is. `Store.record` reads a
record of a fixed size in this way.
-/

namespace Caf

/-- An operation on a store that fails with an error of the library. -/
abbrev CafM := EStateM Error Store

namespace Store

/-- Does `operation` on the store, whose failures get their `meaning` from where they happen. -/
def explaining {α : Type} (meaning : DeviceError → Error) (operation : StoreM α) : CafM α :=
  fun store =>
    match operation store with
    | .ok x store => .ok x store
    | .error e store => .error (meaning e) store

/-- Does `operation` on the store, whose failures stay what they are. -/
def run {α : Type} (operation : StoreM α) : CafM α :=
  explaining .device operation

/-- Reads a record of `size` bytes as the `part` of the header at `offset`. -/
def record {α : Type} (part : HeaderPart) (offset size : Nat)
    (read? : Bytes → Option (α × Bytes)) : CafM α := do
  let bytes ← explaining (Error.whileReading part offset) (readExact size)
  match read? bytes.data.toList with
  | some (x, _) => pure x
  | none => throw (Error.whileReading part offset .endOfBytes)

/-- Success of `operation` does not depend on the meaning of failures. -/
theorem explaining_ok {α : Type} {meaning : DeviceError → Error} {operation : StoreM α}
    {store store' : Store} {x : α} (h : explaining meaning operation store = .ok x store') :
    operation store = .ok x store' := by
  unfold explaining at h
  split at h
  · rename_i hop
    obtain ⟨rfl, rfl⟩ := h
    exact hop
  · cases h

/-- A record of `size` bytes is read from the bytes of the store, and the cursor moves behind it. -/
theorem record_ok {α : Type} {part : HeaderPart} {offset size : Nat}
    {read? : Bytes → Option (α × Bytes)} {store store' : Store} {x : α}
    (h : record part offset size read? store = .ok x store') :
    store'.bytes = store.bytes ∧ store'.cursor = store.cursor + size ∧
      size ≤ store.bytes.size - store.cursor := by
  obtain ⟨bytes, store₁, hread, hdecode⟩ := Run.bind_eq_ok_iff.1 h
  have hr := readExact_ok (explaining_ok hread)
  cases hx : read? bytes.data.toList with
  | none =>
    simp only [hx] at hdecode
    exact absurd hdecode Run.throw_ne_ok
  | some found =>
    simp only [hx] at hdecode
    obtain ⟨-, rfl⟩ := Run.pure_eq_ok_iff.1 hdecode
    exact hr

end Store

end Caf
