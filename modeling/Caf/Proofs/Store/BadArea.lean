import Caf.Proofs.Store.Reading

/-!
# Reading where some bytes cannot be read

A read takes what is in front of the bytes that cannot be read, and then fails with the error of the
device; the cursor stays at the first of them. It comes that far where the bytes or the cursor do,
and where more is wanted than stands in front. Otherwise the read is the one of a medium without
such an area. How the medium splits or interrupts its transfers does not matter.

## Main definitions

* `Store.Stumbles`: a read comes to bytes that cannot be read;
* `Store.Filled`: what a read comes to.

## Main results

* `Store.fill_filled`: every read with such an area comes to one or the other.
-/

namespace Caf.Store

/-- A read of `want` bytes from `offset` on comes to bytes that cannot be read: they start in front
of where it would end, and there is no end of the bytes before them. -/
def Stumbles (store : Store) (bad : BadArea) (offset want : Nat) : Prop :=
  0 < want ∧ bad.start < offset + want ∧ bad.start ≤ max offset store.bytes.size

/-- What a read of `want` bytes comes to where some bytes cannot be read. -/
inductive Filled (store : Store) (bad : BadArea) (want : Nat) :
    EStateM.Result DeviceError Store ByteArray → Prop where
  /-- The bytes that are there are handed out. -/
  | whole (pace : List Turn) (clear : ¬ store.Stumbles bad store.cursor want) :
    Filled store bad want (.ok (slice store.bytes store.cursor want)
      (store.movedTo (store.cursor + (slice store.bytes store.cursor want).size) pace))
  /-- The read stops at the first byte that cannot be read, or where it started behind it. -/
  | stopped (pace : List Turn) (stumbles : store.Stumbles bad store.cursor want) :
    Filled store bad want (.error bad.error (store.movedTo (max store.cursor bad.start) pace))

variable {store : Store} {bad : BadArea} {want : Nat}

/-- A turn of the pace does not matter. -/
theorem Filled.of_afterTurn {pace : List Turn}
    {result : EStateM.Result DeviceError Store ByteArray}
    (h : (store.afterTurn pace).Filled bad want result) : store.Filled bad want result := by
  cases h with
  | whole pace clear => exact .whole pace clear
  | stopped pace stumbles => exact .stopped pace stumbles

/-! ## One call of the medium -/

/-- What a call for the `first` bytes comes to. -/
inductive Transferred (store : Store) (bad : BadArea) (first : Nat) :
    EStateM.Result DeviceError Store ByteArray → Prop where
  /-- The cursor is where nothing can be read. -/
  | failed (hthere : bad.start ≤ store.cursor) :
    Transferred store bad first (.error bad.error store)
  /-- What is in front of the bad bytes is handed out. -/
  | part {count : Nat} (hfront : store.cursor < bad.start)
      (hcount : count = min first (bad.start - store.cursor)) :
    Transferred store bad first (.ok (slice store.bytes store.cursor count)
      (store.movedTo (store.cursor + (slice store.bytes store.cursor count).size)
        store.faults.pace))

theorem transfer_transferred (store : Store) (hbad : store.faults.bad = some bad) (first : Nat) :
    store.Transferred bad first (transfer first store) := by
  simp only [transfer, hbad]
  by_cases hthere : bad.start ≤ store.cursor
  · rw [if_pos hthere]
    exact .failed hthere
  · rw [if_neg hthere]
    exact .part (Nat.lt_of_not_le hthere) rfl

/-- A call leaves the faults as they are: `Faults.bad` is what it was. -/
theorem Transferred.bad_eq {first : Nat} {part : ByteArray} {left : Store}
    (h : store.Transferred bad first (.ok part left)) : left.faults.bad = store.faults.bad := by
  cases h
  rfl

/-- A call that fails stops the read where it is. -/
theorem filled_of_failed {first : Nat} {e : DeviceError} {left : Store}
    (h : store.Transferred bad first (.error e left)) (hwant : want ≠ 0) :
    store.Filled bad want (.error e left) := by
  cases h with
  | failed hthere =>
    have hstumbles : store.Stumbles bad store.cursor want := ⟨by omega, by omega, by omega⟩
    have hstays : max store.cursor bad.start = store.cursor := Nat.max_eq_left hthere
    have hstopped := Filled.stopped store.faults.pace hstumbles
    rw [hstays] at hstopped
    exact hstopped

/-- A call that hands out nothing has come to the end of the bytes. -/
theorem filled_of_nothing {first : Nat} {part : ByteArray} {left : Store}
    (h : store.Transferred bad first (.ok part left)) (hfirst : 0 < first)
    (hnothing : part.size = 0) : store.Filled bad want (.ok part left) := by
  cases h with
  | @part count hfront hcount =>
    have hend := slice_eq_of_size_eq_zero want (show 0 < count by omega) hnothing
    rw [size_slice] at hnothing
    -- The bad bytes are behind the end, and the cursor is too.
    have hclear : ¬ store.Stumbles bad store.cursor want := by
      rintro ⟨-, -, hcomes⟩
      omega
    rw [← hend]
    exact .whole _ hclear

/-- What a read comes to with `part` in front, which has been handed out before. -/
def behind (part : ByteArray) :
    EStateM.Result DeviceError Store ByteArray → EStateM.Result DeviceError Store ByteArray
  | .ok rest left => .ok (part ++ rest) left
  | .error e left => .error e left

/-- A call that hands out `part` leaves the rest of the read to others. -/
theorem filled_of_part {first : Nat} {part : ByteArray} {left : Store}
    (h : store.Transferred bad first (.ok part left)) (hfirst : first ≤ want)
    (hpart : part.size ≠ 0) {result : EStateM.Result DeviceError Store ByteArray}
    (hrest : left.Filled bad (want - part.size) result) :
    store.Filled bad want (behind part result) := by
  cases h with
  | @part count hfront hcount =>
    have hsize := size_slice store.bytes store.cursor count
    -- The part ends in front of the bad bytes and within the others, so that the rest stumbles
    -- where the whole does.
    have hsame : (store.movedTo (store.cursor + (slice store.bytes store.cursor count).size)
        store.faults.pace).Stumbles bad
          (store.cursor + (slice store.bytes store.cursor count).size)
          (want - (slice store.bytes store.cursor count).size) ↔
        store.Stumbles bad store.cursor want := by
      unfold Stumbles
      rw [movedTo_bytes]
      omega
    cases hrest with
    | whole pace clear =>
      rw [movedTo_cursor, hsame] at clear
      rw [behind, ok_append_eq_slice (show count ≤ want by omega) ⟨rfl, rfl⟩ ⟨rfl, rfl⟩]
      exact .whole pace clear
    | stopped pace stumbles =>
      rw [movedTo_cursor, hsame] at stumbles
      have hfar : max (store.cursor + (slice store.bytes store.cursor count).size) bad.start =
          max store.cursor bad.start := by omega
      rw [behind, movedTo_cursor, movedTo_movedTo, hfar]
      exact .stopped pace stumbles

/-! ## Reading as a whole -/

/-- A read of `want` bytes hands out those that are there, unless it comes to some that cannot be
read. -/
theorem fill_filled (hbad : store.faults.bad = some bad) (want : Nat) :
    store.Filled bad want (fill want store) := by
  -- Each call of the medium makes up one part, and the rest is read from where it has stopped.
  fun_induction fill want store with
  | case1 store =>
    have hclear : ¬ store.Stumbles bad store.cursor 0 := fun hstumbles =>
      absurd hstumbles.1 (Nat.lt_irrefl 0)
    have hnone : slice store.bytes store.cursor 0 = ByteArray.empty :=
      slice_eq_iff.2 (by rw [List.take_zero]; rfl)
    have hwhole : store.Filled bad 0 _ := .whole store.faults.pace hclear
    rw [hnone] at hwhole
    exact hwhole
  | case2 want store hwant pace hpace ih => exact (ih hbad).of_afterTurn
  | case3 want store hwant extra pace hpace e left htransfer =>
    have hcall := (store.afterTurn pace).transfer_transferred hbad (min want (extra + 1))
    rw [htransfer] at hcall
    exact (filled_of_failed hcall hwant).of_afterTurn
  | case4 want store hwant extra pace hpace part left htransfer hzero =>
    have hcall := (store.afterTurn pace).transfer_transferred hbad (min want (extra + 1))
    rw [htransfer] at hcall
    exact (filled_of_nothing hcall (by omega) hzero).of_afterTurn
  | case5 want store hwant extra pace hpace part left htransfer hpart _ read hrest ih
  | case6 want store hwant extra pace hpace part left htransfer hpart _ read hrest ih =>
    have hcall := (store.afterTurn pace).transfer_transferred hbad (min want (extra + 1))
    rw [htransfer] at hcall
    have hread := filled_of_part hcall (Nat.min_le_left ..) hpart (ih (hcall.bad_eq.trans hbad))
    rw [hrest] at hread
    exact hread.of_afterTurn
  | case7 want store hwant hpace e left htransfer =>
    have hcall := store.transfer_transferred hbad want
    rw [htransfer] at hcall
    exact filled_of_failed hcall hwant
  | case8 want store hwant hpace part left htransfer hzero =>
    have hcall := store.transfer_transferred hbad want
    rw [htransfer] at hcall
    exact filled_of_nothing hcall (by omega) hzero
  | case9 want store hwant hpace part left htransfer hpart _ read hrest ih
  | case10 want store hwant hpace part left htransfer hpart _ read hrest ih =>
    have hcall := store.transfer_transferred hbad want
    rw [htransfer] at hcall
    have hread := filled_of_part hcall (Nat.le_refl _) hpart (ih (hcall.bad_eq.trans hbad))
    rw [hrest] at hread
    exact hread

end Caf.Store
