import Caf.Proofs.Store.Reading
import Caf.Store.Writing

/-!
# Writing

What a write leaves behind, whatever the medium does. A write takes all of its data, or stops where
the store takes nothing any more, with a part of the data taken. What was taken stands at the
cursor, and nothing else has changed.

## Main definitions

* `Bytes.splice`: bytes with some of them replaced from an offset on;
* `Store.Took`: a store that has taken some data at its cursor;
* `Store.Refusing`, `Store.Offered`: a store that takes nothing, and what one call comes to;
* `Store.Wrote`: what a write comes to;
* `Store.Alike`: the same medium with the same faults, up to the pace;
* `Store.Accepting`: a store that takes whatever ends below a capacity.

## Main results

* `Store.writeAll_wrote`: a write takes its data, or a part of it up to where the store takes
  nothing;
* `Store.Accepting.writeAll_eq`: a write to an accepting store succeeds.
-/

namespace Caf

/-! ## Replacing bytes -/

namespace Bytes

/-- The bytes with some of them replaced by `data` from `offset` on. They grow where they do not
reach far enough. -/
def splice (bytes : Bytes) (offset : Nat) (data : Bytes) : Bytes :=
  bytes.take offset ++ data ++ bytes.drop (offset + data.length)

variable {bytes : Bytes} {offset : Nat}

theorem splice_nil (bytes : Bytes) (offset : Nat) : splice bytes offset [] = bytes := by
  rw [splice, List.append_nil, List.length_nil, Nat.add_zero, List.take_append_drop]

/-- Two pieces that are put one behind the other are put as one: `first` and then `second`. -/
theorem splice_splice (h : offset ≤ bytes.length) (first second : Bytes) :
    splice (splice bytes offset first) (offset + first.length) second =
      splice bytes offset (first ++ second) := by
  have hlead : (bytes.take offset ++ first).length = offset + first.length := by
    rw [List.length_append, List.length_take, Nat.min_eq_left h]
  have hdrop : (splice bytes offset first).drop (offset + first.length + second.length) =
      bytes.drop (offset + (first ++ second).length) := by
    rw [splice, ← List.drop_drop, List.drop_left' hlead, List.drop_drop, List.length_append,
      Nat.add_assoc]
  -- In front of the second piece stand the old bytes and the first piece.
  rw [splice, hdrop, splice, List.take_left' hlead, splice, ← List.append_assoc]

theorem length_splice (h : offset ≤ bytes.length) (data : Bytes) :
    (splice bytes offset data).length = max bytes.length (offset + data.length) := by
  rw [splice, List.length_append, List.length_append, List.length_take, List.length_drop]
  omega

/-- At the end, `data` is appended. -/
theorem splice_length (bytes data : Bytes) : splice bytes bytes.length data = bytes ++ data := by
  rw [splice, List.take_length, List.drop_of_length_le (Nat.le_add_right ..), List.append_nil]

/-- In front of `rest`, bytes are replaced by others of the same length. -/
theorem splice_append {old new : Bytes} (h : new.length = old.length) (rest : Bytes) :
    splice (old ++ rest) 0 new = new ++ rest := by
  rw [splice, List.take_zero, List.nil_append, Nat.zero_add, h, List.drop_left]

end Bytes

namespace Store

variable {store store' store'' : Store}

/-! ## Data that was taken -/

/-- The store has taken `data` at its cursor and is `store'` now. -/
structure Took (store : Store) (data : Bytes) (store' : Store) : Prop where
  /-- The data stands where the cursor was. -/
  content : store'.content = Bytes.splice store.content store.cursor data
  /-- The cursor stands behind it. -/
  cursor : store'.cursor = store.cursor + data.length
  /-- The medium is the same. -/
  medium : store'.medium = store.medium
  /-- Transfers use up the pace and the budget, and nothing else. -/
  faults : ∃ pace, store'.faults =
    { store.faults with pace, budget := store.faults.budget.map (· - data.length) }

namespace Took

/-- No data changes nothing but the `pace`. -/
theorem nil (store : Store) (pace : List Turn) : store.Took [] (store.afterTurn pace) := by
  refine ⟨(Bytes.splice_nil ..).symm, rfl, rfl, pace, ?_⟩
  have hbudget : store.faults.budget.map (· - ([] : Bytes).length) = store.faults.budget := by
    cases store.faults.budget <;> rfl
  rw [hbudget]
  rfl

/-- A turn of the pace does not matter. -/
theorem of_afterTurn {pace : List Turn} {data : Bytes}
    (h : (store.afterTurn pace).Took data store') : store.Took data store' :=
  ⟨h.content, h.cursor, h.medium, h.faults⟩

/-- Bytes are taken one behind the other, `second` behind `first`. -/
theorem trans {first second : Bytes} (h : store.Took first store')
    (h' : store'.Took second store'') (hcursor : store.cursor ≤ store.bytes.size) :
    store.Took (first ++ second) store'' := by
  obtain ⟨pace, hfaults⟩ := h.faults
  obtain ⟨pace', hfaults'⟩ := h'.faults
  refine ⟨?_, ?_, h'.medium.trans h.medium, pace', ?_⟩
  -- The second piece stands where the first one ends.
  · rw [h'.content, h.content, h.cursor, Bytes.splice_splice (by rwa [length_content])]
  · rw [h'.cursor, h.cursor, List.length_append, Nat.add_assoc]
  · have hbudget : (store.faults.budget.map (· - first.length)).map (· - second.length) =
        store.faults.budget.map (· - (first ++ second).length) := by
      rw [Option.map_map, List.length_append]
      exact congrArg (Option.map · store.faults.budget) (funext fun n => Nat.sub_sub ..)
    rw [hfaults', hfaults, ← hbudget]

/-- Where there was no gap in front of the cursor, there is none after a store `Took` something. -/
theorem cursor_le {data : Bytes} (h : store.Took data store')
    (hcursor : store.cursor ≤ store.bytes.size) : store'.cursor ≤ store'.bytes.size := by
  rw [← length_content, h.content, Bytes.length_splice (by rwa [length_content]), h.cursor]
  exact Nat.le_max_right ..

end Took

/-- The store takes nothing at its cursor. -/
def Refusing (store : Store) : Prop :=
  (∃ last ∈ store.medium.lastWritable, last < store.cursor) ∨ store.faults.refusing = true ∨
    store.faults.budget = some 0

/-! ## One call of the medium -/

/-- The first bytes of `data` stand at the cursor when they have been accepted. -/
theorem accept_took (hcursor : store.cursor ≤ store.bytes.size) (data : ByteArray) (count : Nat) :
    ∃ store', accept data count store = .ok (min count data.size) store' ∧
      store.Took (data.data.toList.take count) store' := by
  have hsize : (data.extract 0 count).size = min count data.size := by
    rw [ByteArray.size_extract, Nat.sub_zero]
  have hlist : (data.extract 0 count).data.toList = data.data.toList.take count := by
    rw [ByteArray.data_extract, Array.toList_extract, List.extract_eq_take_drop, List.drop_zero,
      Nat.sub_zero]
  have hlength : (data.data.toList.take count).length = min count data.size := by
    rw [List.length_take, Array.length_toList, ByteArray.size_data]
  refine ⟨{ store with
      bytes := overwrite store.bytes store.cursor (data.extract 0 count)
      cursor := store.cursor + min count data.size
      faults := { store.faults with
        budget := store.faults.budget.map (· - min count data.size) } },
    ?_, ?_, ?_, rfl, store.faults.pace, ?_⟩
  · rw [accept, hsize]
  · rw [content, toList_overwrite _ hcursor, hlist, hsize, Bytes.splice, hlength]
    rfl
  · rw [hlength]
  · rw [hlength]

/-- What a call that offers `data` comes to. -/
inductive Offered (store : Store) (data : ByteArray) :
    EStateM.Result DeviceError Store Nat → Prop where
  /-- The call fails and leaves the store alone, which takes nothing. -/
  | failed {e : DeviceError} (refusing : store.Refusing) : Offered store data (.error e store)
  /-- The call takes no bytes, and neither does the store. -/
  | nothing (refusing : store.Refusing) : Offered store data (.ok 0 store)
  /-- The call takes some of the first bytes. -/
  | some {taken : Nat} {store' : Store}
      (took : store.Took (data.data.toList.take (taken + 1)) store') :
      Offered store data (.ok (taken + 1) store')

/-- A medium that accepts some of `data` takes at least one byte. -/
theorem accept_offered (hcursor : store.cursor ≤ store.bytes.size) {data : ByteArray}
    (hdata : data.size ≠ 0) {count : Nat} (hcount : 0 < count) :
    store.Offered data (accept data count store) := by
  obtain ⟨store', haccept, htook⟩ := accept_took hcursor data count
  obtain ⟨taken, htaken⟩ : ∃ taken, min count data.size = taken + 1 :=
    Nat.exists_eq_add_one.2 (by omega)
  have hlist : data.data.toList.take count = data.data.toList.take (taken + 1) := by
    rw [← htaken, List.take_eq_take_iff, Array.length_toList, ByteArray.size_data]
    omega
  rw [haccept, htaken]
  exact .some (hlist ▸ htook)

/-- A call of `offer` takes at least one byte, or none because the store takes nothing. -/
theorem offered_of_offer {data : ByteArray} {limit : Nat}
    {result : EStateM.Result DeviceError Store Nat} (h : offer data limit store = result)
    (hcursor : store.cursor ≤ store.bytes.size) (hdata : data.size ≠ 0) (hlimit : 0 < limit) :
    store.Offered data result := by
  rw [← h]
  unfold offer
  by_cases hlast : store.medium.lastWritable.any (· < store.cursor)
  case pos =>
    simp only [hlast, ↓reduceIte]
    rw [Option.any_eq_true] at hlast
    obtain ⟨last, hmem, hlt⟩ := hlast
    exact .failed (.inl ⟨last, hmem, by simpa using hlt⟩)
  simp only [hlast, Bool.false_eq_true, ↓reduceIte]
  by_cases hrefusing : store.faults.refusing = true
  case pos =>
    simp only [hrefusing, ↓reduceIte]
    exact .nothing (.inr (.inl hrefusing))
  simp only [hrefusing, Bool.false_eq_true, ↓reduceIte]
  -- What is taken is bounded by the call and by the budget, and neither is zero any more.
  match hbudget : store.faults.budget with
  | none => exact accept_offered hcursor hdata hlimit
  | some 0 => exact .failed (.inr (.inr hbudget))
  | some (budget + 1) => exact accept_offered hcursor hdata (by omega)

/-! ## Writing as a whole -/

/-- What a write of `data` comes to. -/
inductive Wrote (store : Store) (data : Bytes) : EStateM.Result DeviceError Store Unit → Prop where
  /-- All of the data has been taken. -/
  | whole {store' : Store} (took : store.Took data store') : Wrote store data (.ok () store')
  /-- A part of the data has been taken, up to where the store takes nothing. -/
  | torn {e : DeviceError} {store' : Store} {taken rest : Bytes} (data_eq : data = taken ++ rest)
      (rest_ne : rest ≠ []) (took : store.Took taken store') (refusing : store'.Refusing) :
      Wrote store data (.error e store')

namespace Wrote

variable {data : Bytes} {result : EStateM.Result DeviceError Store Unit}

/-- A turn of the pace does not matter for what a write comes to. -/
theorem of_afterTurn {pace : List Turn} (h : (store.afterTurn pace).Wrote data result) :
    store.Wrote data result := by
  cases h with
  | whole took => exact .whole took.of_afterTurn
  | torn data_eq rest_ne took refusing => exact .torn data_eq rest_ne took.of_afterTurn refusing

/-- A store that takes nothing tears the write of `data`. -/
theorem of_refusing {e : DeviceError} (hdata : data ≠ []) (h : store.Refusing) :
    store.Wrote data (.error e store) :=
  .torn (List.nil_append data).symm hdata (.nil store store.faults.pace) h

/-- What is taken `first` stands in front of what comes of the rest. -/
theorem of_took {first : Bytes} (h : store.Took first store') (hrest : store'.Wrote data result)
    (hcursor : store.cursor ≤ store.bytes.size) :
    store.Wrote (first ++ data) result := by
  cases hrest with
  | whole took => exact .whole (h.trans took hcursor)
  | torn data_eq rest_ne took refusing =>
    refine .torn ?_ rest_ne (h.trans took hcursor) refusing
    rw [data_eq, List.append_assoc]

end Wrote

/-- A write takes `data`, or a part of it up to where the store takes nothing. -/
theorem writeAll_wrote (data : ByteArray) (hcursor : store.cursor ≤ store.bytes.size) :
    store.Wrote data.data.toList (writeAll data store) := by
  have hnil {data : ByteArray} (h : data.size ≠ 0) : data.data.toList ≠ [] := by
    intro hlist
    rw [← ByteArray.size_data, ← Array.length_toList, hlist] at h
    exact h rfl
  have hsplit (data : ByteArray) (count : Nat) : data.data.toList =
      data.data.toList.take count ++ (data.extract count data.size).data.toList := by
    rw [ByteArray.data_extract, Array.toList_extract, List.extract_eq_take_drop,
      List.take_of_length_le (l := data.data.toList.drop count) (Nat.le_of_eq (by
        rw [List.length_drop, Array.length_toList, ByteArray.size_data])),
      List.take_append_drop]
  -- Where the write goes on after a call, the rest of the data is written from behind what it took.
  fun_induction writeAll data store with
  | case1 data store hzero =>
    have hlist : data.data.toList = [] := by
      rw [← List.length_eq_zero_iff, Array.length_toList, ByteArray.size_data, hzero]
    rw [hlist]
    exact .whole (.nil store store.faults.pace)
  | case2 data store hdata pace hpace ih => exact (ih hcursor).of_afterTurn
  | case3 data store hdata extra pace hpace e store' hoffer =>
    cases offered_of_offer hoffer hcursor hdata (Nat.succ_pos extra) with
    | failed hrefusing => exact (Wrote.of_refusing (hnil hdata) hrefusing).of_afterTurn
  | case4 data store hdata extra pace hpace store' hoffer =>
    cases offered_of_offer hoffer hcursor hdata (Nat.succ_pos extra) with
    | nothing hrefusing => exact (Wrote.of_refusing (hnil hdata) hrefusing).of_afterTurn
  | case5 data store hdata extra pace hpace taken store' hoffer ih =>
    cases offered_of_offer hoffer hcursor hdata (Nat.succ_pos extra) with
    | some htook =>
      rw [hsplit data (taken + 1)]
      exact (Wrote.of_took htook (ih (htook.cursor_le hcursor)) hcursor).of_afterTurn
  | case6 data store hdata hpace e store' hoffer =>
    cases offered_of_offer hoffer hcursor hdata (Nat.pos_of_ne_zero hdata) with
    | failed hrefusing => exact .of_refusing (hnil hdata) hrefusing
  | case7 data store hdata hpace store' hoffer =>
    cases offered_of_offer hoffer hcursor hdata (Nat.pos_of_ne_zero hdata) with
    | nothing hrefusing => exact .of_refusing (hnil hdata) hrefusing
  | case8 data store hdata hpace taken store' hoffer ih =>
    cases offered_of_offer hoffer hcursor hdata (Nat.pos_of_ne_zero hdata) with
    | some htook =>
      rw [hsplit data (taken + 1)]
      exact .of_took htook (ih (htook.cursor_le hcursor)) hcursor

/-- A medium that moves all that it can in one call goes on to do so after `writeAll`. -/
theorem pace_of_writeAll {data : ByteArray} (h : writeAll data store = .ok () store')
    (hpace : store.faults.pace = []) : store'.faults.pace = [] := by
  fun_induction writeAll data store with
  | case1 =>
    cases h
    exact hpace
  | case2 data store hdata pace hturns ih => simp [hturns] at hpace
  | case5 data store hdata extra pace hturns taken left hoffer ih => simp [hturns] at hpace
  -- Where there are no turns, a call of the medium uses up none.
  | case8 data store hdata hturns taken left hoffer ih =>
    exact ih h ((offer_ok hoffer).2.trans hpace)
  | case3 | case4 | case6 | case7 => cases h

/-- Flushing that succeeds changes nothing. -/
theorem flush_ok (h : flush store = .ok () store') : store' = store := by
  unfold flush at h
  split at h
  · cases h
  · obtain ⟨-, rfl⟩ := h
    rfl

theorem flush_error {e : DeviceError} (h : flush store = .error e store') : store' = store := by
  unfold flush at h
  split at h <;> cases h
  rfl

/-! ## Stores that accept what is written -/

/-- The store `store'` is on the same medium as `store` with the same faults, up to the pace. -/
structure Alike (store store' : Store) : Prop where
  /-- The medium is the same. -/
  medium : store'.medium = store.medium
  /-- The faults are the same up to the pace. -/
  faults : ∃ pace, store'.faults = { store.faults with pace }

namespace Alike

theorem trans (h : store.Alike store') (h' : store'.Alike store'') : store.Alike store'' := by
  obtain ⟨pace, hfaults⟩ := h.faults
  obtain ⟨pace', hfaults'⟩ := h'.faults
  exact ⟨h'.medium.trans h.medium, pace', by rw [hfaults', hfaults]⟩

/-- Moving the `cursor` does not matter. -/
theorem movedTo (store : Store) (cursor : Nat) (pace : List Turn) :
    store.Alike (store.movedTo cursor pace) :=
  ⟨rfl, pace, rfl⟩

/-- With the same bytes, such stores differ in the cursor and the pace only. -/
theorem eq_movedTo (h : store.Alike store') (hcontent : store'.content = store.content) :
    ∃ pace, store' = store.movedTo store'.cursor pace := by
  obtain ⟨pace, hfaults⟩ := h.faults
  have hbytes : store'.bytes = store.bytes := ByteArray.ext (Array.toList_inj.1 hcontent)
  refine ⟨pace, ?_⟩
  rw [Store.movedTo, ← hbytes, ← h.medium, ← hfaults]

end Alike

/-- A store without faults that takes whatever ends below `capacity`. -/
structure Accepting (store : Store) (capacity : Nat) : Prop where
  /-- Flushing works. -/
  flush : store.faults.flush = false
  /-- Seeking works. -/
  seek : store.faults.seek = false
  /-- There is no limit to what is taken. -/
  budget : store.faults.budget = none
  /-- Writing takes bytes. -/
  refusing : store.faults.refusing = false
  /-- The medium does not claim to be longer than it is. -/
  phantom : store.faults.phantom = 0
  /-- Every offset below the capacity can be sought. -/
  reach : capacity ≤ store.medium.reach
  /-- Writing can start at every offset below the capacity. -/
  writable : ∀ last ∈ store.medium.lastWritable, capacity ≤ last + 1
  /-- A length below the capacity can be declared. -/
  capacity_lt : capacity < 2 ^ 63

namespace Accepting

variable {capacity : Nat}

/-- Memory without faults accepts what is written near its start. -/
theorem of_memory (bytes : ByteArray) (h : capacity ≤ 2 ^ 24) :
    Store.Accepting { bytes } capacity := by
  refine ⟨rfl, rfl, rfl, rfl, rfl, ?_, ?_, by omega⟩
  · show capacity ≤ 2 ^ 64 - 1
    omega
  · rintro _ ⟨rfl⟩
    exact Nat.le_succ_of_le h

/-- What ends below a `smaller` capacity is accepted, too. -/
theorem mono (h : store.Accepting capacity) {smaller : Nat} (hle : smaller ≤ capacity) :
    store.Accepting smaller :=
  { h with
    reach := Nat.le_trans hle h.reach
    writable := fun last hlast => Nat.le_trans hle (h.writable last hlast)
    capacity_lt := Nat.lt_of_le_of_lt hle h.capacity_lt }

/-- The pace does not decide whether a store accepts what is written. -/
theorem of_alike (h : store.Accepting capacity) (h' : store.Alike store') :
    store'.Accepting capacity := by
  obtain ⟨hmedium, pace, hfaults⟩ := h'
  refine ⟨?_, ?_, ?_, ?_, ?_, hmedium ▸ h.reach, hmedium ▸ h.writable, h.capacity_lt⟩
  · rw [hfaults]; exact h.flush
  · rw [hfaults]; exact h.seek
  · rw [hfaults]; exact h.budget
  · rw [hfaults]; exact h.refusing
  · rw [hfaults]; exact h.phantom

/-- Without a budget, taking `data` uses up nothing but the pace. -/
theorem alike_of_took (h : store.Accepting capacity) {data : Bytes}
    (htook : store.Took data store') : store.Alike store' := by
  obtain ⟨pace, hfaults⟩ := htook.faults
  have hbudget : store.faults.budget.map (· - data.length) = store.faults.budget := by
    rw [h.budget]
    rfl
  exact ⟨htook.medium, pace, by rw [hfaults, hbudget]⟩

theorem flush_eq (h : store.Accepting capacity) : Store.flush store = .ok () store := by
  simp only [Store.flush, h.flush, Bool.false_eq_true, ↓reduceIte]

/-- Below its capacity, an accepting store does not refuse. -/
theorem not_refusing (h : store.Accepting capacity) (hcursor : store.cursor < capacity) :
    ¬ store.Refusing := by
  rintro (⟨last, hlast, hlt⟩ | hrefusing | hbudget)
  · have := h.writable last hlast
    omega
  · rw [h.refusing] at hrefusing
    cases hrefusing
  · rw [h.budget] at hbudget
    cases hbudget

/-- An accepting store takes `data` that ends below its capacity. -/
theorem writeAll_eq (h : store.Accepting capacity) (hcursor : store.cursor ≤ store.bytes.size)
    (data : ByteArray) (hdata : store.cursor + data.size ≤ capacity) :
    ∃ store', writeAll data store = .ok () store' ∧ store.Took data.data.toList store' := by
  have hwrote := writeAll_wrote data hcursor
  cases hresult : writeAll data store with
  | ok _ store' =>
    rw [hresult] at hwrote
    cases hwrote with
    | whole took => exact ⟨store', rfl, took⟩
  | error e store' =>
    rw [hresult] at hwrote
    cases hwrote with
    | torn data_eq rest_ne took refusing =>
      -- The write would have stopped below the capacity, where the store takes bytes.
      have hlength := congrArg List.length data_eq
      rw [Array.length_toList, ByteArray.size_data, List.length_append] at hlength
      have hrest := List.length_pos_iff.2 rest_ne
      have hbelow := took.cursor
      exact absurd refusing ((h.of_alike (h.alike_of_took took)).not_refusing (by omega))

end Accepting

end Store

end Caf
