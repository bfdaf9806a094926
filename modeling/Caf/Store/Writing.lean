import Caf.Store.Basic

/-!
# Writing to a store

`Store.writeAll` repeats calls of the medium until all bytes are taken. What was taken in front of a
failure stays. `Store.toList_overwrite` says which bytes a write replaces.
-/

namespace Caf

namespace Store

/-- Zero bytes, as many as `n` says. -/
def zeros (n : Nat) : ByteArray :=
  ⟨Array.replicate n 0⟩

/-- The bytes with some of them replaced by `data` from `offset` on; a gap in front of `offset` is
filled with zero bytes, and the bytes grow where they do not reach far enough. No data changes
nothing, wherever it goes. -/
def overwrite (bytes : ByteArray) (offset : Nat) (data : ByteArray) : ByteArray :=
  if data.size = 0 then bytes
  else
    let padded :=
      if bytes.size < offset then bytes ++ zeros (offset - bytes.size) else bytes
    data.copySlice 0 padded offset data.size false

/-- No data changes nothing. -/
theorem overwrite_of_size_eq_zero (bytes : ByteArray) (offset : Nat) {data : ByteArray}
    (h : data.size = 0) : overwrite bytes offset data = bytes :=
  if_pos h

/-- Where there is no gap, the bytes in front of `data` and behind it stay what they were. -/
theorem toList_overwrite {bytes : ByteArray} {offset : Nat} (data : ByteArray)
    (h : offset ≤ bytes.size) :
    (overwrite bytes offset data).data.toList =
      bytes.data.toList.take offset ++ data.data.toList ++
        bytes.data.toList.drop (offset + data.size) := by
  by_cases hdata : data.size = 0
  · have hnil : data.data.toList = [] := by
      rw [← List.length_eq_zero_iff, Array.length_toList, ByteArray.size_data, hdata]
    rw [overwrite_of_size_eq_zero bytes offset hdata, hnil, hdata, List.append_nil, Nat.add_zero,
      List.take_append_drop]
  · have hgap : ¬ bytes.size < offset := by omega
    simp only [overwrite, if_neg hdata, if_neg hgap, ByteArray.copySlice, Array.toList_append,
      Array.toList_extract, List.extract_eq_take_drop, ByteArray.size_data, Nat.zero_add,
      Nat.sub_zero, List.drop_zero, Nat.min_self]
    rw [List.take_of_length_le (l := data.data.toList) (by simp [ByteArray.size_data]),
      List.take_of_length_le (l := bytes.data.toList.drop _) (by simp [ByteArray.size_data])]

/-- Takes the first bytes of `data`, `count` of them, to where the cursor is. -/
def accept (data : ByteArray) (count : Nat) : StoreM Nat := fun store =>
  let part := data.extract 0 count
  .ok part.size
    { store with
      bytes := overwrite store.bytes store.cursor part
      cursor := store.cursor + part.size
      faults := { store.faults with budget := store.faults.budget.map (· - part.size) } }

/-- One call of the medium for at most `limit` bytes of `data`; it tells how many were taken. -/
def offer (data : ByteArray) (limit : Nat) : StoreM Nat := fun store =>
  if store.medium.lastWritable.any (· < store.cursor) then .error .storeLimit store
  else if store.faults.refusing then .ok 0 store
  else
    -- What is left is taken even where it is not enough; the next call then fails.
    match store.faults.budget with
    | none => accept data limit store
    | some 0 => .error .diskFull store
    | some budget => accept data (min budget limit) store

/-- A call does not take more bytes than `data` has, and uses up no turn of the pace. -/
theorem offer_ok {data : ByteArray} {limit : Nat} {store store' : Store} {taken : Nat}
    (h : offer data limit store = .ok taken store') :
    taken ≤ data.size ∧ store'.faults.pace = store.faults.pace := by
  unfold offer at h
  split at h
  · cases h
  · split at h
    · obtain ⟨rfl, rfl⟩ := h
      exact ⟨Nat.zero_le _, rfl⟩
    · split at h
      · obtain ⟨rfl, rfl⟩ := h
        exact ⟨by rw [ByteArray.size_extract]; omega, rfl⟩
      · cases h
      · obtain ⟨rfl, rfl⟩ := h
        exact ⟨by rw [ByteArray.size_extract]; omega, rfl⟩

/-- Writes until all of `data` is taken. An interrupted call is repeated, and a call that takes
nothing is a failure. Bytes that were taken before a failure stay. -/
def writeAll (data : ByteArray) (store : Store) : EStateM.Result DeviceError Store Unit :=
  if data.size = 0 then .ok () store
  else
    match _hpace : store.faults.pace with
    | .interrupted :: pace => writeAll data (store.afterTurn pace)
    | .short extra :: pace =>
      match hoffer : offer data (extra + 1) (store.afterTurn pace) with
      | .error e store' => .error e store'
      | .ok 0 store' => .error .nothingWritten store'
      | .ok (taken + 1) store' =>
        writeAll (data.extract (taken + 1) data.size) store'
    | [] =>
      match hoffer : offer data data.size store with
      | .error e store' => .error e store'
      | .ok 0 store' => .error .nothingWritten store'
      | .ok (taken + 1) store' =>
        writeAll (data.extract (taken + 1) data.size) store'
termination_by data.size + store.faults.pace.length
decreasing_by
  · simp only [afterTurn, _hpace, List.length_cons]
    omega
  · have hle := (offer_ok hoffer).1
    rw [(offer_ok hoffer).2]
    simp only [afterTurn, _hpace, List.length_cons, ByteArray.size_extract]
    omega
  · have hle := (offer_ok hoffer).1
    rw [(offer_ok hoffer).2, _hpace]
    simp only [List.length_nil, ByteArray.size_extract]
    omega

/-- Asks the medium to keep what was written. -/
def flush : StoreM Unit := fun store =>
  if store.faults.flush then .error .deviceGone store else .ok () store

end Store

end Caf
