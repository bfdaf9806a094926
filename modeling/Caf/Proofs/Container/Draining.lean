import Caf.Container.Reader
import Caf.Proofs.Store.Reading

/-!
# Reading the samples to their end

A read hands out bytes of the region from the cursor on. Where the region reaches to the end of the
store, reading again and again until a read gives no bytes hands out all that was in front of the
cursor, whatever the sizes of the buffers and the pace of the medium.

## Main definitions

* `Reader.drain`: reading with one buffer after the other until a read gives no bytes.

## Main results

* `Reader.read_eq`: what a read hands out;
* `Reader.drain_eq`: what all of the reads hand out.
-/

namespace Caf

variable {store : Store}

/-- A slice and what stands behind it are what stands at `offset`. -/
theorem Store.slice_append_drop (bytes : ByteArray) (offset want : Nat) :
    (slice bytes offset want).data.toList ++
        bytes.data.toList.drop (offset + (slice bytes offset want).size) =
      bytes.data.toList.drop offset := by
  have hlength : (bytes.data.toList.drop offset).length = bytes.size - offset := by
    rw [List.length_drop, Array.length_toList, ByteArray.size_data]
  have htake : (bytes.data.toList.drop offset).take want =
      (bytes.data.toList.drop offset).take (slice bytes offset want).size := by
    rw [List.take_eq_take_iff, size_slice, hlength]
    omega
  rw [toList_slice, htake, ← List.drop_drop, List.take_append_drop]

namespace Reader

variable {reader : Reader}

/-- A read starts at the cursor, or at the start of the region if the cursor is in front of it. -/
theorem enterRegion_eq (hseek : store.faults.seek = false)
    (hoffset : reader.region.offset ≤ store.medium.reach) :
    reader.enterRegion store = .ok (max store.cursor reader.region.offset)
      (store.movedTo (max store.cursor reader.region.offset) store.faults.pace) := by
  rw [enterRegion, Run.bind_of_ok (Store.run_of_ok (Store.position_eq hseek))]
  by_cases hbefore : store.cursor < reader.region.offset
  case pos =>
    simp only [if_pos hbefore, Nat.max_eq_right (Nat.le_of_lt hbefore)]
    exact Run.bind_of_ok (Store.run_of_ok (Store.seekTo_eq hseek hoffset))
  case neg =>
    simp only [if_neg hbefore, Nat.max_eq_left (Nat.le_of_not_lt hbefore)]
    rfl

/-- A read hands out the bytes of the region from `start` on, as far as the store has them. -/
theorem read_eq (hseek : store.faults.seek = false) (hbad : store.faults.bad = none)
    (hoffset : reader.region.offset ≤ store.medium.reach)
    (hstop : reader.region.offset + reader.region.length < 2 ^ 64) (want : Nat) {start : Nat}
    (hstart : max store.cursor reader.region.offset = start) {part : ByteArray}
    (hpart : Store.slice store.bytes start
      (min want (reader.region.offset + reader.region.length - start)) = part) :
    ∃ pace, reader.read want store = .ok part (store.movedTo (start + part.size) pace) := by
  have hchecked : checked reader.region.stop (store.movedTo start store.faults.pace) =
      .ok (reader.region.offset + reader.region.length)
        (store.movedTo start store.faults.pace) := by
    rw [Region.stop, addWithin, if_pos hstop]
    rfl
  have hgood : (store.movedTo start store.faults.pace).faults.bad = none := hbad
  obtain ⟨pace, hfill⟩ := Store.fill_eq hgood
    (min want (reader.region.offset + reader.region.length - start))
  rw [Store.movedTo_bytes, Store.movedTo_cursor, Store.movedTo_movedTo, hpart] at hfill
  refine ⟨pace, ?_⟩
  rw [read, Run.bind_of_ok (enterRegion_eq hseek hoffset), hstart, Run.bind_of_ok hchecked]
  exact Store.run_of_ok hfill

/-! ## Reading to the end -/

/-- Reads with one buffer after the other until a read gives no bytes, and gives all that was read.
It gives nothing where the buffers are used up before. -/
def drain (reader : Reader) : List Nat → CafM (Option Bytes)
  | [] => return none
  | want :: wants => do
    let part ← reader.read want
    if part.size = 0 then
      return some []
    let rest ← reader.drain wants
    return rest.map (part.data.toList ++ ·)

/-- In a region that reaches to the end of the store, reading to the end hands out what stands
behind the cursor. The buffers `wants` are used up before only if there are no more of them than
bytes. -/
theorem drain_eq (hread : store.Readable) (hsize : store.bytes.size < 2 ^ 64)
    (hstart : reader.region.offset ≤ store.cursor)
    (hend : reader.region.offset + reader.region.length = store.bytes.size) {wants : List Nat}
    (hwants : ∀ want ∈ wants, 0 < want) :
    ∃ result store', reader.drain wants store = .ok result store' ∧
      (result = some (store.content.drop store.cursor) ∨
        result = none ∧ wants.length ≤ store.bytes.size - store.cursor) := by
  -- Every read that gives bytes takes the cursor nearer to the end.
  induction wants generalizing store with
  | nil => exact ⟨none, store, rfl, .inr ⟨rfl, Nat.zero_le _⟩⟩
  | cons want wants ih =>
    have hpos := hwants want List.mem_cons_self
    obtain ⟨pace, hok⟩ := read_eq hread.seek hread.bad (Nat.le_trans hstart hread.cursor)
      (by omega) want (Nat.max_eq_left hstart) rfl
    have hpart := Store.size_slice store.bytes store.cursor
      (min want (reader.region.offset + reader.region.length - store.cursor))
    have hjoin := Store.slice_append_drop store.bytes store.cursor
      (min want (reader.region.offset + reader.region.length - store.cursor))
    generalize Store.slice store.bytes store.cursor
      (min want (reader.region.offset + reader.region.length - store.cursor)) = part at *
    rw [drain, Run.bind_of_ok hok]
    by_cases hnone : part.size = 0
    case pos =>
      -- A buffer with room gets nothing only at the end.
      have hnil : store.content.drop store.cursor = [] :=
        List.drop_of_length_le (by rw [Store.length_content]; omega)
      rw [hnil]
      simp only [if_pos hnone]
      exact ⟨_, _, rfl, .inl rfl⟩
    case neg =>
      have hcursor : store.cursor + part.size ≤ store.bytes.size := by omega
      obtain ⟨rest, store', hrest, hcases⟩ :=
        ih (hread.movedTo (Nat.le_trans hcursor hread.size) pace) hsize
          (Nat.le_trans hstart (Nat.le_add_right ..)) hend
          fun other hmem => hwants other (List.mem_cons_of_mem _ hmem)
      simp only [if_neg hnone]
      refine ⟨_, store', Run.bind_of_ok hrest, ?_⟩
      rcases hcases with rfl | ⟨rfl, hshort⟩
      · exact .inl (congrArg some hjoin)
      · refine .inr ⟨rfl, ?_⟩
        rw [Store.movedTo_bytes, Store.movedTo_cursor] at hshort
        rw [List.length_cons]
        omega

end Reader

end Caf
