import Caf.Store.Operation

/-!
# Reading without faults

What the operations on a store do when no fault is in force: a cursor that can be asked for and
moved, an honest length, and bytes that can all be read. The pace of the transfers is left open, so
every statement holds however the medium splits or interrupts them.

## Main definitions

* `Store.Readable`: no fault that reading or seeking would meet;
* `Store.movedTo`: the store with another cursor, some turns of its pace spent.

## Main results

* `Store.fill_eq`: a read hands out the bytes that are there;
* `Store.record_of_append`: a record in front of the cursor is read as a whole;
* `Store.record_of_short`: a record that is cut off is a fault in the layout.
-/

namespace Caf

namespace Store

variable {store : Store}

/-- The number of bytes is the length of `content`. -/
@[simp]
theorem length_content (store : Store) : store.content.length = store.bytes.size := by
  rw [content, Array.length_toList, ByteArray.size_data]

/-- Nothing that reading or seeking meets is at fault, and every byte has an offset. -/
structure Readable (store : Store) : Prop where
  /-- Seeking works. -/
  seek : store.faults.seek = false
  /-- All bytes can be read. -/
  bad : store.faults.bad = none
  /-- The medium does not claim to be longer than it is. -/
  phantom : store.faults.phantom = 0
  /-- The cursor is at an offset that the medium has. -/
  cursor : store.cursor ≤ store.medium.reach
  /-- The end of the bytes is at an offset that the medium has. -/
  size : store.bytes.size ≤ store.medium.reach

/-- Memory without faults can be read. -/
theorem Readable.of_memory (bytes : ByteArray) (h : bytes.size < 2 ^ 64) :
    Store.Readable { bytes } :=
  ⟨rfl, rfl, rfl, Nat.zero_le _, Nat.le_sub_one_of_lt h⟩

/-- The store with its cursor at `cursor`, and with `pace` for the transfers to come. -/
def movedTo (store : Store) (cursor : Nat) (pace : List Turn) : Store :=
  { store with cursor, faults := { store.faults with pace } }

@[simp]
theorem movedTo_bytes (store : Store) (cursor : Nat) (pace : List Turn) :
    (store.movedTo cursor pace).bytes = store.bytes := rfl

@[simp]
theorem movedTo_content (store : Store) (cursor : Nat) (pace : List Turn) :
    (store.movedTo cursor pace).content = store.content := rfl

@[simp]
theorem movedTo_cursor (store : Store) (cursor : Nat) (pace : List Turn) :
    (store.movedTo cursor pace).cursor = cursor := rfl

@[simp]
theorem movedTo_medium (store : Store) (cursor : Nat) (pace : List Turn) :
    (store.movedTo cursor pace).medium = store.medium := rfl

@[simp]
theorem movedTo_movedTo (store : Store) (cursor cursor' : Nat) (pace pace' : List Turn) :
    (store.movedTo cursor pace).movedTo cursor' pace' = store.movedTo cursor' pace' := rfl

/-- Moving the cursor keeps a store readable. -/
theorem Readable.movedTo (h : store.Readable) {cursor : Nat} (hcursor : cursor ≤ store.medium.reach)
    (pace : List Turn) : (store.movedTo cursor pace).Readable :=
  ⟨h.seek, h.bad, h.phantom, hcursor, h.size⟩

/-- A `field` that is there ends within the bytes. -/
theorem add_length_le_size {offset : Nat} {field rest : Bytes}
    (hcontent : store.content.drop offset = field ++ rest) (hfield : 0 < field.length) :
    offset + field.length ≤ store.bytes.size := by
  have hlength := congrArg List.length hcontent
  rw [List.length_drop, length_content, List.length_append] at hlength
  omega

/-- Moving the cursor over a `field` that is there keeps a store readable. -/
theorem Readable.movedTo_append (h : store.Readable) {width : Nat} {field rest : Bytes}
    (hcontent : store.content.drop store.cursor = field ++ rest) (hwidth : field.length = width)
    (hpos : 0 < width) (pace : List Turn) :
    (store.movedTo (store.cursor + width) pace).Readable := by
  have hend := add_length_le_size hcontent (hwidth ▸ hpos)
  exact h.movedTo (Nat.le_trans (hwidth ▸ hend) h.size) pace

/-! ## The cursor and the length -/

theorem position_eq (h : store.faults.seek = false) :
    position store = .ok store.cursor store := by
  simp [position, h]

theorem seekTo_eq {offset : Nat} (h : store.faults.seek = false)
    (hreach : offset ≤ store.medium.reach) :
    seekTo offset store = .ok () (store.movedTo offset store.faults.pace) := by
  simp only [seekTo, h, Bool.false_eq_true, ↓reduceIte, if_neg (Nat.not_lt.2 hreach)]
  rfl

/-- A seek to `offset` that succeeds moves the cursor there. -/
theorem seekTo_ok {offset : Nat} {store' : Store} (h : seekTo offset store = .ok () store') :
    store' = store.movedTo offset store.faults.pace := by
  unfold seekTo at h
  split at h
  · cases h
  · split at h
    · cases h
    · obtain ⟨-, rfl⟩ := h
      rfl

/-- No seek goes beyond the offsets that the medium has, of which `reach` is the last. -/
theorem seekTo_of_far {offset : Nat} (hfar : store.medium.reach < offset) :
    ∃ e, seekTo offset store = .error e store := by
  rw [seekTo, if_pos hfar]
  split <;> exact ⟨_, rfl⟩

/-- A seek that succeeds goes to an offset that the medium has. -/
theorem le_reach_of_seekTo {offset : Nat} {left : Store} (h : seekTo offset store = .ok () left) :
    offset ≤ store.medium.reach := by
  by_cases hfar : store.medium.reach < offset
  case neg => exact Nat.not_lt.1 hfar
  obtain ⟨e, herror⟩ := seekTo_of_far hfar
  rw [herror] at h
  cases h

theorem seekBy_eq {distance : Nat} (h : store.faults.seek = false)
    (hreach : store.cursor + distance ≤ store.medium.reach) :
    seekBy distance store =
      .ok () (store.movedTo (store.cursor + distance) store.faults.pace) :=
  seekTo_eq h hreach

/-- Measuring a store gives its size and leaves the cursor where it is. -/
theorem length_eq (hseek : store.faults.seek = false) (hphantom : store.faults.phantom = 0)
    (hcursor : store.cursor ≤ store.medium.reach) (hsize : store.bytes.size ≤ store.medium.reach) :
    length store = .ok store.bytes.size store := by
  have hend : seekEnd store =
      .ok store.bytes.size (store.movedTo store.bytes.size store.faults.pace) := by
    simp only [seekEnd, hphantom, Nat.add_zero, seekTo_eq hseek hsize]
  rw [length, Run.bind_of_ok (position_eq hseek), Run.bind_of_ok hend]
  by_cases hhere : store.cursor = store.bytes.size
  -- The cursor was at the end already, and looking for the end has not moved it.
  · simp only [hhere, ne_eq, not_true_eq_false, ↓reduceIte]
    show EStateM.Result.ok _ _ = _
    rw [← hhere]
    rfl
  · simp only [hhere, ne_eq, not_false_eq_true, ↓reduceIte]
    have hback : seekTo store.cursor (store.movedTo store.bytes.size store.faults.pace) =
        .ok () store := seekTo_eq hseek hcursor
    rw [Run.bind_of_ok hback]
    rfl

/-- Looking for the end moves the cursor to the `stop` that the medium claims. -/
theorem seekEnd_ok {stop : Nat} {store' : Store} (h : seekEnd store = .ok stop store') :
    stop = store.bytes.size + store.faults.phantom ∧
      store' = store.movedTo stop store.faults.pace := by
  simp only [seekEnd] at h
  cases hseek : seekTo (store.bytes.size + store.faults.phantom) store with
  | ok _ moved =>
    rw [hseek] at h
    cases h
    exact ⟨rfl, seekTo_ok hseek⟩
  | error e moved =>
    rw [hseek] at h
    cases h

/-- Measuring that succeeds tells where the medium claims to end, and changes nothing. -/
theorem length_ok {n : Nat} {store' : Store} (h : length store = .ok n store') :
    n = store.bytes.size + store.faults.phantom ∧ store' = store := by
  obtain ⟨here, store₀, hposition, h⟩ := Run.bind_eq_ok_iff.1 h
  have hstart := position_ok hposition
  rw [hstart.1, hstart.2] at h
  obtain ⟨stop, store₁, hend, h⟩ := Run.bind_eq_ok_iff.1 h
  obtain ⟨hstop, hmoved⟩ := seekEnd_ok hend
  by_cases hhere : store.cursor = stop
  -- The cursor was at the end already.
  · simp only [hhere, ne_eq, not_true_eq_false, ↓reduceIte] at h
    obtain ⟨rfl, rfl⟩ := Run.pure_eq_ok_iff.1 h
    refine ⟨hstop, ?_⟩
    rw [hmoved, ← hhere]
    rfl
  · simp only [hhere, ne_eq, not_false_eq_true, ↓reduceIte] at h
    obtain ⟨_, store₂, hback, h⟩ := Run.bind_eq_ok_iff.1 h
    obtain ⟨rfl, rfl⟩ := Run.pure_eq_ok_iff.1 h
    refine ⟨hstop, ?_⟩
    rw [seekTo_ok hback, hmoved]
    rfl

/-! ## Failures -/

theorem position_error {e : DeviceError} {store' : Store}
    (h : position store = .error e store') : store' = store := by
  unfold position at h
  split at h <;> cases h
  rfl

theorem seekTo_error {offset : Nat} {e : DeviceError} {store' : Store}
    (h : seekTo offset store = .error e store') : store' = store := by
  unfold seekTo at h
  split at h
  · cases h
    rfl
  · split at h <;> cases h
    rfl

theorem seekEnd_error {e : DeviceError} {store' : Store}
    (h : seekEnd store = .error e store') : store' = store := by
  simp only [seekEnd] at h
  cases hseek : seekTo (store.bytes.size + store.faults.phantom) store with
  | ok _ moved =>
    rw [hseek] at h
    cases h
  | error cause moved =>
    rw [hseek] at h
    cases h
    exact seekTo_error hseek

/-- Measuring that fails may leave the cursor at the end, and changes nothing else. -/
theorem length_error {e : DeviceError} {store' : Store} (h : length store = .error e store') :
    ∃ cursor, store' = store.movedTo cursor store.faults.pace := by
  rcases Run.bind_eq_error_iff.1 h with h | ⟨here, store₀, hposition, h⟩
  · exact ⟨store.cursor, position_error h⟩
  have hstart := (position_ok hposition).2
  rcases Run.bind_eq_error_iff.1 h with h | ⟨stop, store₁, hend, h⟩
  · exact ⟨store.cursor, (seekEnd_error h).trans hstart⟩
  -- What is left to fail is the way back.
  have hback : store' = store₁ := by
    by_cases hhere : here = stop
    · simp only [hhere, ne_eq, not_true_eq_false, ↓reduceIte] at h
      cases h
    · simp only [hhere, ne_eq, not_false_eq_true, ↓reduceIte] at h
      rcases Run.bind_eq_error_iff.1 h with h | ⟨_, store₂, -, h⟩
      · exact seekTo_error h
      · cases h
  exact ⟨stop, by rw [hback, (seekEnd_ok hend).2, hstart]⟩

/-- A store that claims to end behind the offsets of its medium cannot be measured. -/
theorem length_of_far (hfar : store.medium.reach < store.bytes.size + store.faults.phantom) :
    ∃ e, length store = .error e store := by
  obtain ⟨e, hseek⟩ := seekTo_of_far hfar
  have hend : seekEnd store = .error e store := by simp only [seekEnd, hseek]
  cases hposition : position store with
  | error cause left =>
    rw [position_error hposition] at hposition
    exact ⟨cause, Run.bind_of_error hposition⟩
  | ok here left =>
    rw [(position_ok hposition).2] at hposition
    exact ⟨e, (Run.bind_of_ok hposition).trans (Run.bind_of_error hend)⟩

theorem Readable.length_eq (h : store.Readable) : length store = .ok store.bytes.size store :=
  Store.length_eq h.seek h.phantom h.cursor h.size

/-! ## Transfers -/

/-- A slice is determined by its bytes. -/
theorem slice_eq_iff {bytes part : ByteArray} {offset want : Nat} :
    slice bytes offset want = part ↔
      part.data.toList = (bytes.data.toList.drop offset).take want := by
  rw [← toList_slice, eq_comm (b := (slice bytes offset want).data.toList), Array.toList_inj]
  exact ⟨fun h => h ▸ rfl, fun h => ByteArray.ext h⟩

/-- A slice of `want` bytes is cut where a call of the medium ends. -/
theorem slice_append_slice (bytes : ByteArray) (offset : Nat) {first want : Nat}
    (hfirst : first ≤ want) :
    slice bytes offset first ++
        slice bytes (offset + (slice bytes offset first).size)
          (want - (slice bytes offset first).size) =
      slice bytes offset want := by
  refine (slice_eq_iff.2 ?_).symm
  rw [ByteArray.toList_data_append, toList_slice, toList_slice, size_slice]
  by_cases hend : first ≤ bytes.size - offset
  · rw [Nat.min_eq_left hend, ← List.drop_drop, ← List.take_add, Nat.add_sub_cancel' hfirst]
  -- The first part reaches the end of the bytes, so that nothing is left for the second.
  · have hlength : (bytes.data.toList.drop offset).length = bytes.size - offset := by
      rw [List.length_drop, Array.length_toList, ByteArray.size_data]
    have hnil : bytes.data.toList.drop (offset + (bytes.size - offset)) = [] :=
      List.drop_of_length_le (by rw [Array.length_toList, ByteArray.size_data]; omega)
    rw [Nat.min_eq_right (by omega), hnil, List.take_nil, List.append_nil,
      List.take_of_length_le (by omega), List.take_of_length_le (by omega)]

/-- Where a call hands out nothing though it was asked for something, there is nothing. -/
theorem slice_eq_of_size_eq_zero {bytes : ByteArray} {offset first : Nat} (want : Nat)
    (hfirst : 0 < first) (hzero : (slice bytes offset first).size = 0) :
    slice bytes offset want = slice bytes offset first := by
  rw [size_slice] at hzero
  have hend : ¬ offset < bytes.size := by omega
  rw [slice, slice, if_neg hend, if_neg hend]

/-- A call of `transfer` hands out what it has been asked for, as far as the bytes go. -/
theorem transfer_eq (store : Store) (want : Nat) (hbad : store.faults.bad = none) :
    transfer want store = .ok (slice store.bytes store.cursor want)
      (store.movedTo (store.cursor + (slice store.bytes store.cursor want).size)
        store.faults.pace) := by
  simp only [transfer, hbad]
  rfl

/-- The `part` and the store that a call of the medium gives are determined. -/
theorem transfer_unique {first : Nat} {part : ByteArray} {store' : Store}
    (h : transfer first store = .ok part store') (hbad : store.faults.bad = none) :
    part = slice store.bytes store.cursor first ∧
      store' = store.movedTo (store.cursor + part.size) store.faults.pace := by
  rw [transfer_eq store first hbad] at h
  cases h
  exact ⟨rfl, rfl⟩

/-- One call of the medium and a read of what is still wanted make up a read. -/
theorem ok_append_eq_slice {first want : Nat} {pace pace' : List Turn} {part rest : ByteArray}
    {store' store'' : Store} (hfirst : first ≤ want)
    (hpart : part = slice store.bytes store.cursor first ∧
      store' = store.movedTo (store.cursor + part.size) pace)
    (hrest : rest = slice store'.bytes store'.cursor (want - part.size) ∧
      store'' = store'.movedTo (store'.cursor + rest.size) pace') :
    (.ok (part ++ rest) store'' : EStateM.Result DeviceError Store ByteArray) =
      .ok (slice store.bytes store.cursor want)
        (store.movedTo (store.cursor + (slice store.bytes store.cursor want).size) pace') := by
  obtain ⟨hpart, rfl⟩ := hpart
  obtain ⟨hrest, rfl⟩ := hrest
  have hjoin := slice_append_slice store.bytes store.cursor hfirst
  rw [← hpart, movedTo_bytes, movedTo_cursor] at *
  rw [← hrest] at hjoin
  rw [← hjoin, ByteArray.size_append, movedTo_movedTo, Nat.add_assoc]

/-- A read hands out the bytes from the cursor on, `want` of them, however many calls of the medium
it takes. -/
theorem fill_eq (hbad : store.faults.bad = none) (want : Nat) :
    ∃ pace, fill want store = .ok (slice store.bytes store.cursor want)
      (store.movedTo (store.cursor + (slice store.bytes store.cursor want).size) pace) := by
  -- One call hands out a slice, and what is still wanted is the slice behind it.
  fun_induction fill want store with
  | case1 store =>
    have hnone : slice store.bytes store.cursor 0 = ByteArray.empty :=
      slice_eq_iff.2 (by rw [List.take_zero]; rfl)
    rw [hnone]
    exact ⟨store.faults.pace, rfl⟩
  | case2 want store hwant pace hpace ih => exact ih hbad
  | case3 want store hwant extra pace hpace e store' htransfer =>
    rw [transfer_eq (store.afterTurn pace) _ hbad] at htransfer
    cases htransfer
  | case4 want store hwant extra pace hpace part store' htransfer hzero =>
    obtain ⟨rfl, rfl⟩ := transfer_unique htransfer hbad
    have hend : slice store.bytes store.cursor want = _ :=
      slice_eq_of_size_eq_zero want (by omega) hzero
    rw [hend]
    exact ⟨_, rfl⟩
  | case5 want store hwant extra pace hpace part store' htransfer hzero e store'' hrest ih =>
    obtain ⟨rfl, rfl⟩ := transfer_unique htransfer hbad
    obtain ⟨pace', hok⟩ := ih hbad
    rw [hrest] at hok
    cases hok
  | case6 want store hwant extra pace hpace part store' htransfer hzero rest store'' hrest ih =>
    have hpart := transfer_unique htransfer hbad
    obtain ⟨pace', hok⟩ := ih (hpart.2 ▸ hbad)
    rw [hrest] at hok
    cases hok
    exact ⟨pace', ok_append_eq_slice (Nat.min_le_left ..) hpart ⟨rfl, rfl⟩⟩
  | case7 want store hwant hpace e store' htransfer =>
    rw [transfer_eq store _ hbad] at htransfer
    cases htransfer
  | case8 want store hwant hpace part store' htransfer hzero =>
    rw [transfer_eq store _ hbad] at htransfer
    cases htransfer
    exact ⟨_, rfl⟩
  | case9 want store hwant hpace part store' htransfer hzero e store'' hrest ih =>
    obtain ⟨rfl, rfl⟩ := transfer_unique htransfer hbad
    obtain ⟨pace', hok⟩ := ih hbad
    rw [hrest] at hok
    cases hok
  | case10 want store hwant hpace part store' htransfer hzero rest store'' hrest ih =>
    have hpart := transfer_unique htransfer hbad
    obtain ⟨pace', hok⟩ := ih (hpart.2 ▸ hbad)
    rw [hrest] at hok
    cases hok
    exact ⟨pace', ok_append_eq_slice (Nat.le_refl _) hpart ⟨rfl, rfl⟩⟩

/-- Reading `want` bytes succeeds where as many are there. -/
theorem readExact_eq (hbad : store.faults.bad = none) (want : Nat)
    (hwant : want ≤ store.bytes.size - store.cursor) :
    ∃ pace, readExact want store =
      .ok (slice store.bytes store.cursor want) (store.movedTo (store.cursor + want) pace) := by
  obtain ⟨pace, hfill⟩ := fill_eq hbad want
  have hsize : (slice store.bytes store.cursor want).size = want := by
    rw [size_slice, Nat.min_eq_left hwant]
  refine ⟨pace, ?_⟩
  rw [readExact, hfill]
  simp only [hsize, Nat.lt_irrefl, ↓reduceIte]

/-- Reading `want` bytes fails where fewer are there; the cursor has moved over those. -/
theorem readExact_eq_error (hbad : store.faults.bad = none) {want : Nat}
    (hwant : store.bytes.size - store.cursor < want) :
    ∃ pace, readExact want store = .error .endOfBytes
      (store.movedTo (store.cursor + (store.bytes.size - store.cursor)) pace) := by
  obtain ⟨pace, hfill⟩ := fill_eq hbad want
  have hsize : (slice store.bytes store.cursor want).size = store.bytes.size - store.cursor := by
    rw [size_slice, Nat.min_eq_right (Nat.le_of_lt hwant)]
  refine ⟨pace, ?_⟩
  rw [readExact, hfill]
  simp only [hsize, hwant, ↓reduceIte]

/-! ## Operations with errors of the library -/

variable {α : Type}

theorem explaining_of_ok {meaning : DeviceError → Error} {operation : StoreM α} {store' : Store}
    {x : α} (h : operation store = .ok x store') :
    explaining meaning operation store = .ok x store' := by
  rw [explaining, h]

theorem explaining_of_error {meaning : DeviceError → Error} {operation : StoreM α}
    {store' : Store} {e : DeviceError} (h : operation store = .error e store') :
    explaining meaning operation store = .error (meaning e) store' := by
  rw [explaining, h]

theorem run_of_ok {operation : StoreM α} {store' : Store} {x : α}
    (h : operation store = .ok x store') : run operation store = .ok x store' :=
  explaining_of_ok h

/-- A record whose `field` stands at the cursor as a whole is read, and the cursor moves behind it.
-/
theorem record_of_append (part : HeaderPart) (offset : Nat) {size : Nat}
    (read? : Bytes → Option (α × Bytes)) {field rest : Bytes} {x : α}
    (hbad : store.faults.bad = none)
    (hcontent : store.content.drop store.cursor = field ++ rest) (hsize : field.length = size)
    (hread : read? field = some (x, [])) :
    ∃ pace, record part offset size read? store =
      .ok x (store.movedTo (store.cursor + size) pace) := by
  have hlength : store.bytes.size - store.cursor = field.length + rest.length := by
    rw [← length_content, ← List.length_drop, hcontent, List.length_append]
  obtain ⟨pace, hexact⟩ := readExact_eq hbad size (by omega)
  have hfield : (slice store.bytes store.cursor size).data.toList = field := by
    rw [toList_slice, ← content, hcontent, ← hsize, List.take_left]
  refine ⟨pace, ?_⟩
  rw [record, Run.bind_of_ok (explaining_of_ok hexact)]
  simp only [hfield, hread]
  rfl

/-- A record of `size` bytes that is cut off by the end of the bytes is a fault in the layout. -/
theorem record_of_short (part : HeaderPart) (offset : Nat) {size : Nat}
    (read? : Bytes → Option (α × Bytes)) (hbad : store.faults.bad = none)
    (hshort : store.bytes.size - store.cursor < size) :
    ∃ cursor pace, record part offset size read? store =
      .error (.malformedAt (.truncated part) offset) (store.movedTo cursor pace) := by
  obtain ⟨pace, hexact⟩ := readExact_eq_error hbad hshort
  exact ⟨_, pace, Run.bind_of_error (explaining_of_error hexact)⟩

end Store

end Caf
