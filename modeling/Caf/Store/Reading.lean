import Caf.Store.Basic

/-!
# Reading from a store

`Store.fill` repeats calls of the medium until as many bytes are there as were asked for, or no more
come; `Store.readExact` takes too few for a failure. `Store.fill_ok` and `Store.readExact_ok` say
what a read leaves behind.
-/

namespace Caf

namespace Store

/-- The bytes from `offset` on, `want` of them or as many as there are. -/
def slice (bytes : ByteArray) (offset want : Nat) : ByteArray :=
  if offset < bytes.size then bytes.extract offset (min bytes.size (offset + want))
  else ByteArray.empty

/-- A slice has `want` bytes, or as many as there are from `offset` on. -/
theorem size_slice (bytes : ByteArray) (offset want : Nat) :
    (slice bytes offset want).size = min want (bytes.size - offset) := by
  unfold slice
  split
  · rw [ByteArray.size_extract]; omega
  · rw [ByteArray.size_empty]; omega

/-- A slice holds the bytes of the list from `offset` on. -/
theorem toList_slice (bytes : ByteArray) (offset want : Nat) :
    (slice bytes offset want).data.toList = (bytes.data.toList.drop offset).take want := by
  unfold slice
  split
  · rw [ByteArray.data_extract, Array.toList_extract, List.extract_eq_take_drop,
      List.take_eq_take_iff]
    simp only [List.length_drop, Array.length_toList, ByteArray.size_data]
    omega
  · have hnil : bytes.data.toList.drop offset = [] := by
      simp only [List.drop_eq_nil_iff, Array.length_toList, ByteArray.size_data]
      omega
    simp [hnil]

/-- Hands out the bytes at the cursor, `want` of them or as many as there are. -/
def deliver (want : Nat) : StoreM ByteArray := fun store =>
  let part := slice store.bytes store.cursor want
  .ok part { store with cursor := store.cursor + part.size }

/-- One call of the medium for at most `want` bytes. It stops short of bytes that cannot be read,
and fails when it would have to start there. -/
def transfer (want : Nat) : StoreM ByteArray := fun store =>
  match store.faults.bad with
  | none => deliver want store
  | some bad =>
    -- The bad bytes fail a call that starts there, also behind the end of the store.
    if bad.start ≤ store.cursor then .error bad.error store
    else deliver (min want (bad.start - store.cursor)) store

/-- A call moves the cursor over the `part` that it hands out, which are bytes of the store. -/
theorem transfer_ok {want : Nat} {store store' : Store} {part : ByteArray}
    (h : transfer want store = .ok part store') :
    store'.bytes = store.bytes ∧ store'.cursor = store.cursor + part.size ∧
      part.size ≤ want ∧ part.size ≤ store.bytes.size - store.cursor ∧
      store'.faults = store.faults ∧ store'.medium = store.medium := by
  unfold transfer at h
  split at h
  · obtain ⟨rfl, rfl⟩ := h
    refine ⟨rfl, rfl, ?_, ?_, rfl, rfl⟩ <;> rw [size_slice] <;> omega
  · split at h
    · cases h
    · obtain ⟨rfl, rfl⟩ := h
      refine ⟨rfl, rfl, ?_, ?_, rfl, rfl⟩ <;> rw [size_slice] <;> omega

/-- Reads until `want` bytes are there or a call hands out none. An interrupted call is repeated. -/
def fill (want : Nat) (store : Store) : EStateM.Result DeviceError Store ByteArray :=
  if want = 0 then .ok ByteArray.empty store
  else
    match _hpace : store.faults.pace with
    | .interrupted :: pace => fill want (store.afterTurn pace)
    | .short extra :: pace =>
      match _htransfer : transfer (min want (extra + 1)) (store.afterTurn pace) with
      | .error e store' => .error e store'
      | .ok part store' =>
        if part.size = 0 then .ok part store'
        else
          match fill (want - part.size) store' with
          | .error e store'' => .error e store''
          | .ok rest store'' => .ok (part ++ rest) store''
    | [] =>
      match _htransfer : transfer want store with
      | .error e store' => .error e store'
      | .ok part store' =>
        if part.size = 0 then .ok part store'
        else
          match fill (want - part.size) store' with
          | .error e store'' => .error e store''
          | .ok rest store'' => .ok (part ++ rest) store''
termination_by want + store.faults.pace.length
decreasing_by
  · simp only [afterTurn, _hpace, List.length_cons]
    omega
  · rw [(transfer_ok _htransfer).2.2.2.2.1]
    simp only [afterTurn, _hpace, List.length_cons]
    omega
  · rw [(transfer_ok _htransfer).2.2.2.2.1, _hpace]
    omega

/-- Reading moves the cursor over the `part` that it hands out, which are bytes of the store. -/
theorem fill_ok {want : Nat} {store store' : Store} {part : ByteArray}
    (h : fill want store = .ok part store') :
    store'.bytes = store.bytes ∧ store'.cursor = store.cursor + part.size ∧
      part.size ≤ want ∧ part.size ≤ store.bytes.size - store.cursor := by
  fun_induction fill want store generalizing part store' with
  | case1 store =>
    obtain ⟨rfl, rfl⟩ := h
    simp
  | case2 want store hwant pace hpace ih =>
    simpa [afterTurn] using ih h
  | case3 => cases h
  | case4 want store hwant extra pace hpace part₁ store₁ htransfer hzero =>
    obtain ⟨rfl, rfl⟩ := h
    have ht := transfer_ok htransfer
    simp only [afterTurn] at ht
    exact ⟨ht.1, ht.2.1, by omega, ht.2.2.2.1⟩
  | case5 => cases h
  | case6 want store hwant extra pace hpace part₁ store₁ htransfer hzero rest store₂ hrest ih =>
    obtain ⟨rfl, rfl⟩ := h
    have ht := transfer_ok htransfer
    have hr := ih hrest
    simp only [afterTurn, ByteArray.size_append] at ht hr ⊢
    rw [ht.1] at hr
    refine ⟨hr.1, ?_⟩
    omega
  | case7 => cases h
  | case8 want store hwant hpace part₁ store₁ htransfer hzero =>
    obtain ⟨rfl, rfl⟩ := h
    have ht := transfer_ok htransfer
    exact ⟨ht.1, ht.2.1, ht.2.2.1, ht.2.2.2.1⟩
  | case9 => cases h
  | case10 want store hwant hpace part₁ store₁ htransfer hzero rest store₂ hrest ih =>
    obtain ⟨rfl, rfl⟩ := h
    have ht := transfer_ok htransfer
    have hr := ih hrest
    simp only [ByteArray.size_append] at ht hr ⊢
    rw [ht.1] at hr
    refine ⟨hr.1, ?_⟩
    omega

/-- Reads `want` bytes; fewer are a failure, but the cursor has moved over them. -/
def readExact (want : Nat) : StoreM ByteArray := fun store =>
  match fill want store with
  | .error e store' => .error e store'
  | .ok part store' =>
    if part.size < want then .error .endOfBytes store' else .ok part store'

/-- Reading moves the cursor on by `want`, and within the bytes of the store. -/
theorem readExact_ok {want : Nat} {store store' : Store} {part : ByteArray}
    (h : readExact want store = .ok part store') :
    store'.bytes = store.bytes ∧ store'.cursor = store.cursor + want ∧
      want ≤ store.bytes.size - store.cursor := by
  unfold readExact at h
  split at h
  · cases h
  · rename_i hfill
    have hf := fill_ok hfill
    split at h
    · cases h
    · obtain ⟨rfl, rfl⟩ := h
      refine ⟨hf.1, ?_⟩
      omega

end Store

end Caf
