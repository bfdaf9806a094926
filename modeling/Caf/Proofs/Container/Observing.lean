import Caf.Container.Reader
import Caf.Proofs.Container.Steps
import Caf.Proofs.Store.Reading

/-!
# Reading leaves a store alone

Whatever is read of a store, and however reading ends, the bytes, the medium and the faults stay as
they are. Only the cursor moves, and turns of the pace are spent.

## Main definitions

* `Store.still`: what reading and seeking leave alone;
* `Store.MovedWithin`: what a read leaves behind.

## Main results

* `Store.ends_fill`: a read moves the cursor by at most what was asked for, also when it fails;
* `Scan.steps_still`: no step of reading a header changes anything else;
* `Reader.keeps_ofStore`, `Reader.keeps_call`: opening and reading leave a store alone.
-/

namespace Caf

variable {store : Store}

namespace Store

/-- What reading and seeking leave alone: all of the store but its cursor and its pace. -/
def still (store : Store) : Store :=
  store.movedTo 0 []

theorem bytes_eq_of_still {store store' : Store} (h : store'.still = store.still) :
    store'.bytes = store.bytes := by
  simpa only [still, movedTo_bytes] using congrArg bytes h

/-! ## Transfers that may fail -/

/-- A transfer has moved the cursor on by at most `distance`, and has spent turns of the pace.
Nothing else has changed. -/
def MovedWithin (store : Store) (distance : Nat) (left : Store) : Prop :=
  ∃ cursor pace, left = store.movedTo cursor pace ∧
    store.cursor ≤ cursor ∧ cursor ≤ store.cursor + distance

namespace MovedWithin

theorem refl (store : Store) (distance : Nat) : store.MovedWithin distance store :=
  ⟨store.cursor, store.faults.pace, rfl, Nat.le_refl _, Nat.le_add_right ..⟩

/-- What moves on by `done` and then by what is left of `want` has moved within all of it. -/
theorem trans {want done : Nat} {pace : List Turn} {left : Store} (hdone : done ≤ want)
    (h : (store.movedTo (store.cursor + done) pace).MovedWithin (want - done) left) :
    store.MovedWithin want left := by
  obtain ⟨cursor, pace', rfl, hbehind, hwithin⟩ := h
  rw [movedTo_cursor] at hbehind hwithin
  exact ⟨cursor, pace', rfl, by omega, by omega⟩

theorem of_part {want : Nat} {part : ByteArray} (hpart : part.size ≤ want) (pace : List Turn) :
    store.MovedWithin want (store.movedTo (store.cursor + part.size) pace) :=
  ⟨_, pace, rfl, Nat.le_add_right .., Nat.add_le_add_left hpart _⟩

theorem still_eq {distance : Nat} {left : Store} (h : store.MovedWithin distance left) :
    left.still = store.still := by
  obtain ⟨cursor, pace, rfl, -, -⟩ := h
  rfl

end MovedWithin

/-- A call of the medium moves the cursor over the `part` that it hands out. -/
theorem transfer_moved {want : Nat} {part : ByteArray} {left : Store}
    (h : transfer want store = .ok part left) :
    left = store.movedTo (store.cursor + part.size) store.faults.pace ∧ part.size ≤ want := by
  refine ⟨?_, (transfer_ok h).2.2.1⟩
  unfold transfer at h
  split at h
  · cases h
    rfl
  · split at h <;> cases h
    rfl

/-- A call of the medium that fails moves nothing. -/
theorem transfer_error {want : Nat} {e : DeviceError} {left : Store}
    (h : transfer want store = .error e left) : left = store := by
  unfold transfer at h
  split at h
  · cases h
  · split at h <;> cases h
    rfl

/-- A read moves the cursor on by at most `want`, also when it fails half-way. -/
theorem ends_fill (want : Nat) (store : Store) :
    Run.Ends (fun _ left => store.MovedWithin want left) (fun _ left => store.MovedWithin want left)
      (fill want store) := by
  -- A turn that passes changes nothing else, so that each call starts from the same cursor, and
  -- what it has handed out counts also where the rest fails.
  fun_induction fill want store with
  | case1 store => exact .refl store 0
  | case2 want store hwant pace hpace ih => exact ih
  | case3 want store hwant extra pace hpace e left htransfer =>
    obtain rfl := transfer_error htransfer
    exact MovedWithin.refl (store.afterTurn pace) want
  | case4 want store hwant extra pace hpace part left htransfer hzero =>
    obtain ⟨rfl, hpart⟩ := transfer_moved htransfer
    exact .of_part (Nat.le_trans hpart (Nat.min_le_left ..)) pace
  | case5 want store hwant extra pace hpace part store' htransfer hzero _ left hrest ih
  | case6 want store hwant extra pace hpace part store' htransfer hzero _ left hrest ih =>
    obtain ⟨rfl, hpart⟩ := transfer_moved htransfer
    rw [hrest] at ih
    exact .trans (Nat.le_trans hpart (Nat.min_le_left ..)) ih
  | case7 want store hwant hpace e left htransfer =>
    obtain rfl := transfer_error htransfer
    exact MovedWithin.refl left want
  | case8 want store hwant hpace part left htransfer hzero =>
    obtain ⟨rfl, hpart⟩ := transfer_moved htransfer
    exact .of_part hpart _
  | case9 want store hwant hpace part store' htransfer hzero _ left hrest ih
  | case10 want store hwant hpace part store' htransfer hzero _ left hrest ih =>
    obtain ⟨rfl, hpart⟩ := transfer_moved htransfer
    rw [hrest] at ih
    exact .trans hpart ih

/-! ## Operations on the store -/

theorem keeps_fill (want : Nat) : Run.Keeps still (fill want : StoreM ByteArray) :=
  .of_ends fun store => (ends_fill want store).mono (fun _ _ h => h.still_eq)
    (fun _ _ h => h.still_eq)

theorem keeps_readExact (want : Nat) : Run.Keeps still (readExact want) := by
  refine .of_ends fun store => ?_
  rw [readExact]
  cases hfill : fill want store with
  | ok part left =>
    have hkept := (keeps_fill want).of_ok hfill
    simp only
    split <;> exact hkept
  | error e left => exact (keeps_fill want).of_error hfill

theorem keeps_position : Run.Keeps still position := by
  refine .of_ends fun store => ?_
  rw [position]
  split <;> exact rfl

theorem keeps_seekTo (offset : Nat) : Run.Keeps still (seekTo offset) := by
  intro store
  cases hseek : seekTo offset store with
  | ok _ left =>
    rw [Run.after_of_ok hseek, seekTo_ok hseek]
    rfl
  | error e left => rw [Run.after_of_error hseek, seekTo_error hseek]

theorem keeps_seekBy (distance : Nat) : Run.Keeps still (seekBy distance) :=
  fun store => keeps_seekTo (store.cursor + distance) store

theorem keeps_length : Run.Keeps still length := by
  intro store
  cases hlength : length store with
  | ok n left => rw [Run.after_of_ok hlength, (length_ok hlength).2]
  | error e left =>
    obtain ⟨cursor, hleft⟩ := length_error hlength
    rw [Run.after_of_error hlength, hleft]
    rfl

/-- The `meaning` of a failure does not matter for what stays as it is. -/
theorem keeps_explaining {α τ : Type} {view : Store → τ} {operation : StoreM α}
    (meaning : DeviceError → Error) (h : Run.Keeps view operation) :
    Run.Keeps view (explaining meaning operation) := by
  refine .of_ends fun store => ?_
  rw [explaining]
  cases hop : operation store with
  | ok x left => exact h.of_ok hop
  | error e left => exact h.of_error hop

theorem keeps_run {α τ : Type} {view : Store → τ} {operation : StoreM α}
    (h : Run.Keeps view operation) : Run.Keeps view (run operation) :=
  keeps_explaining .device h

theorem keeps_record {α : Type} (part : HeaderPart) (offset size : Nat)
    (read? : Bytes → Option (α × Bytes)) : Run.Keeps still (record part offset size read?) := by
  refine .bind (keeps_explaining _ (keeps_readExact size)) fun bytes => ?_
  split
  · exact .pure _ _
  · exact .throw _ _

end Store

/-! ## Reading a header -/

namespace Scan

/-- What a scan leaves alone of its store. -/
def still (scan : Scan) : Store :=
  scan.store.still

theorem keeps_onStore {α : Type} {operation : CafM α} {scan : Scan}
    (h : (Run.after operation scan.store).still = scan.store.still) :
    (Run.after (onStore operation) scan).still = scan.still := by
  rw [Run.after] at h ⊢
  rw [onStore]
  cases hop : operation scan.store <;> rw [hop] at h <;> exact h

/-- No step of reading a header changes what is left alone. -/
theorem steps_still :
    Steps (fun ⦃_⦄ operation store => (Run.after operation store).still = store.still)
      (fun ⦃_⦄ step scan => (Run.after step scan).still = scan.still) where
  toClosed := Run.Keeps.closed still
  store :=
    { toClosed := Run.Keeps.closed Store.still
      position := Store.keeps_run Store.keeps_position
      seekBy := fun distance => Store.keeps_run (Store.keeps_seekBy distance)
      record := Store.keeps_record }
  onStore := keeps_onStore
  note _ _ := rfl

end Scan

/-- Reading a header leaves the store alone. -/
theorem Header.keeps_read : Run.Keeps Scan.still read := by
  refine .bind (fun _ => Scan.keeps_onStore (Store.keeps_run Store.keeps_length _))
    fun fileLength => ?_
  refine .bind (fun _ => Scan.keeps_onStore (Store.keeps_run (Store.keeps_seekTo 0) _)) fun _ => ?_
  exact Scan.steps_still.readParts fileLength

/-! ## Opening and reading -/

namespace Reader

/-- To open a container with `ofStore` leaves the store alone, whether it succeeds or not. -/
theorem keeps_ofStore : Run.Keeps Store.still ofStore := by
  refine .of_ends fun store => ?_
  rw [ofStore]
  cases hread : Header.read ⟨store, .empty⟩ with
  | ok header scan => exact Header.keeps_read.of_ok hread
  | error e scan => exact Header.keeps_read.of_error hread

theorem keeps_checked {σ τ α : Type} (view : σ → τ) (result : Except Defect α) :
    Run.Keeps view (checked result : EStateM Error σ α) := by
  cases result with
  | ok x => exact .pure _ _
  | error defect => exact .throw _ _

theorem keeps_read (reader : Reader) (want : Nat) : Run.Keeps Store.still (reader.read want) := by
  refine .bind (.bind (Store.keeps_run Store.keeps_position) fun position => .ite ?_ (.pure _ _))
    fun position => ?_
  · exact .bind (Store.keeps_run (Store.keeps_seekTo _)) fun _ => .pure _ _
  · exact .bind (keeps_checked _ _) fun _ => Store.keeps_run (Store.keeps_fill _)

theorem keeps_goToFrame (reader : Reader) (frame : Nat) :
    Run.Keeps Store.still (reader.goToFrame frame) := by
  refine .ite (.throw_bind _ _ _) ?_
  refine .bind (keeps_checked _ _) fun _ => .bind (keeps_checked _ _) fun _ => ?_
  exact .bind (Store.keeps_run (Store.keeps_seekTo _)) fun _ => .pure _ _

theorem keeps_currentFrame (reader : Reader) : Run.Keeps Store.still reader.currentFrame :=
  .bind (Store.keeps_run Store.keeps_position) fun _ => .ite (.throw_bind _ _ _) (.pure _ _)

theorem keeps_digest (reader : Reader) : Run.Keeps Store.still reader.digest := by
  refine .bind (Store.keeps_run Store.keeps_position) fun position => ?_
  refine .bind (Store.keeps_run (Store.keeps_seekTo _)) fun _ => ?_
  refine .bind (Store.keeps_run (Store.keeps_fill _)) fun samples => ?_
  refine .bind (Store.keeps_run (Store.keeps_seekTo _)) fun _ => .ite ?_ (.pure _ _)
  exact .bind (keeps_checked _ _) fun _ => .throw_bind _ _ _

/-- A call `c` of a reader leaves the store alone, whether it succeeds or not. -/
theorem keeps_call (reader : Reader) (c : Call) : Run.Keeps Store.still (reader.call c) := by
  cases c with
  | read want => exact .bind (keeps_read reader want) fun _ => .pure _ _
  | goToFrame frame => exact .bind (keeps_goToFrame reader frame) fun _ => .pure _ _
  | currentFrame => exact .bind (keeps_currentFrame reader) fun _ => .pure _ _
  | digest => exact .bind (keeps_digest reader) fun _ => .pure _ _

end Reader

end Caf
