import Caf.Store.Medium

/-!
# Byte stores

A container lives in a store: a sequence of bytes with a cursor, on a medium that may fail. An
operation gives back the store as it left it, whether it succeeded or not. This module has the
operations that ask for the cursor, move it, or measure the bytes.
-/

namespace Caf

/-- Bytes with a cursor, on a medium that may fail. -/
structure Store where
  /-- The bytes. -/
  bytes : ByteArray
  /-- The offset at which the next transfer starts. -/
  cursor : Nat := 0
  /-- Where the bytes are kept. -/
  medium : Medium := .memory
  /-- How the medium fails. -/
  faults : Faults := {}

/-- An operation on a store, which may fail and leaves a store behind in either case. -/
abbrev StoreM := EStateM DeviceError Store

namespace Store

/-- The bytes as a list. -/
def content (store : Store) : List UInt8 :=
  store.bytes.data.toList

/-- The store once the first turn of its pace has passed, and `pace` is left of it. -/
def afterTurn (store : Store) (pace : List Turn) : Store :=
  { store with faults := { store.faults with pace } }

/-! ## Seeking -/

/-- The cursor. -/
def position : StoreM Nat := fun store =>
  if store.faults.seek then .error .seekFailed store else .ok store.cursor store

/-- Moves the cursor to `offset`, which may lie behind the last byte. -/
def seekTo (offset : Nat) : StoreM Unit := fun store =>
  if store.faults.seek then .error .seekFailed store
  else if store.medium.reach < offset then .error store.medium.seekError store
  else .ok () { store with cursor := offset }

/-- Moves the cursor on by `distance`. -/
def seekBy (distance : Nat) : StoreM Unit := fun store =>
  seekTo (store.cursor + distance) store

/-- Moves the cursor to the end that the medium claims, and tells where that is. -/
def seekEnd : StoreM Nat := fun store =>
  let stop := store.bytes.size + store.faults.phantom
  match seekTo stop store with
  | .ok () store => .ok stop store
  | .error e store => .error e store

/-- The length that the medium claims. The cursor stays where it is. -/
def length : StoreM Nat := do
  let here ← position
  let stop ← seekEnd
  -- A cursor that was at the end already is not moved a second time.
  if here ≠ stop then
    seekTo here
  return stop

/-- Asking for the cursor changes nothing. -/
theorem position_ok {store store' : Store} {offset : Nat}
    (h : position store = .ok offset store') : offset = store.cursor ∧ store' = store := by
  unfold position at h
  split at h
  · cases h
  · obtain ⟨rfl, rfl⟩ := h
    exact ⟨rfl, rfl⟩

/-- Moving the cursor on by `distance` does not move it back, and leaves the bytes alone. -/
theorem seekBy_ok {distance : Nat} {store store' : Store}
    (h : seekBy distance store = .ok () store') :
    store'.bytes = store.bytes ∧ store'.cursor = store.cursor + distance := by
  unfold seekBy seekTo at h
  split at h
  · cases h
  · split at h
    · cases h
    · obtain ⟨rfl, rfl⟩ := h
      exact ⟨rfl, rfl⟩

end Store

end Caf
