import Caf.Store.Writing

/-!
# Changes from outside

A store can change while a handle is open on it: somebody else writes to the same bytes, or the
medium starts to fail.
-/

namespace Caf

namespace Store

/-- What somebody else can do to a store while a handle is open on it. The cursor stays where it is
unless the change is about the cursor. -/
inductive Change where
  /-- Bytes are appended. -/
  | append (data : ByteArray)
  /-- The bytes behind a length are cut off. -/
  | truncate (length : Nat)
  /-- Bytes are replaced from an offset on. -/
  | patch (offset : Nat) (data : ByteArray)
  /-- The cursor is moved, also while seeking fails. -/
  | moveCursor (offset : Nat)
  /-- The medium starts or stops failing. -/
  | faults (faults : Faults)

/-- The store after a change from outside. -/
def change (store : Store) : Change → Store
  | .append data => { store with bytes := store.bytes ++ data }
  | .truncate length =>
    { store with bytes := store.bytes.extract 0 (min length store.bytes.size) }
  | .patch offset data => { store with bytes := overwrite store.bytes offset data }
  | .moveCursor offset => { store with cursor := offset }
  | .faults faults => { store with faults }

end Store

end Caf
