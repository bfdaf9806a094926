import Caf.Proofs.Container.Settling
import Caf.Proofs.Run.Outcome
import Caf.Store.Change

/-!
# What happens to a writer

A writer is called again and again, whatever came of the calls before, and between the calls its
store changes: the medium starts or stops failing, or somebody else writes to the same bytes. Both
are events, and `Writer.follow` is the writer after some of them.

The second part takes calls apart without any assumption on the store. A call of a broken writer is
refused (`Writer.call_of_broken`). A write goes in one of three ways (`Writer.writeResult_write`):
where it does not get as far as counting its samples, it fails without touching anything but the
store.
-/

namespace Caf.Writer

/-- What happens to a writer. -/
inductive Event where
  /-- The writer is called. -/
  | call (c : Call)
  /-- The store changes between two calls. -/
  | change (change : Store.Change)

/-- The writer after an event. A call that fails leaves a writer behind, too. -/
def meet (writer : Writer) : Event → Writer
  | .call c => Run.after (call c) writer
  | .change change => { writer with store := writer.store.change change }

/-- The writer after `events`. -/
def follow (writer : Writer) (events : List Event) : Writer :=
  events.foldl meet writer

/-- The calls among some events, with what came of each. -/
def outcomes (writer : Writer) : List Event → List (Call × Except Error Answer)
  | [] => []
  | .call c :: events =>
    (c, Run.outcome (call c) writer) :: outcomes (writer.meet (.call c)) events
  | .change change :: events => outcomes (writer.meet (.change change)) events

variable {writer : Writer}

theorem follow_append (writer : Writer) (before after : List Event) :
    writer.follow (before ++ after) = (writer.follow before).follow after :=
  List.foldl_append

/-! ## Operations on the store -/

section Store

variable {α : Type} {operation : StoreM α}

theorem onStore_eq_ok_iff {writer' : Writer} {x : α} :
    onStore operation writer = .ok x writer' ↔
      ∃ store, operation writer.store = .ok x store ∧ writer' = { writer with store } := by
  rw [onStore, Store.run, Store.explaining]
  cases operation writer.store with
  | ok y store =>
    constructor
    · rintro ⟨rfl, rfl⟩
      exact ⟨store, rfl, rfl⟩
    · rintro ⟨_, ⟨rfl, rfl⟩, rfl⟩
      rfl
  | error e store => simp

theorem onStore_of_error {e : DeviceError} {store : Store}
    (h : operation writer.store = .error e store) :
    onStore operation writer = .error (.device e) { writer with store } := by
  rw [onStore, Store.run, Store.explaining_of_error h]

/-- An `operation` on the store does to the writer what it does to the store, and its failures are
those of the device. -/
theorem ends_onStore {good : α → Writer → Prop} {bad : Error → Writer → Prop}
    (h : Run.Ends (fun x store => good x { writer with store })
      (fun e store => bad (.device e) { writer with store }) (operation writer.store)) :
    Run.Ends good bad (onStore operation writer) := by
  rw [onStore, Store.run, Store.explaining]
  cases hop : operation writer.store with
  | ok x store =>
    rw [hop] at h
    exact h
  | error e store =>
    rw [hop] at h
    exact h

/-- What `view` sees does not depend on the store, so that no `operation` on it changes that. -/
theorem keeps_onStore {τ : Type} {view : Writer → τ}
    (hview : ∀ writer store, view { writer with store } = view writer) (operation : StoreM α) :
    Run.Keeps view (onStore operation) := by
  intro writer
  rw [Run.after, onStore]
  cases Store.run operation writer.store <;> exact hview ..

/-- What `view` sees does not depend on the draft, so that composing a header does not change it. -/
theorem keeps_compose {τ : Type} {view : Writer → τ}
    (hview : ∀ writer draft, view { writer with draft } = view writer) :
    Run.Keeps view compose := by
  intro writer
  unfold Run.after compose
  rcases writer.draft.compose writer.stream with ⟨e | bytes, draft⟩ <;> exact hview ..

end Store

/-! ## Calls of a broken writer -/

/-- A call that a broken writer refuses: one that works on its samples or its header. -/
def Call.NeedsIntact : Call → Prop
  | .write _ | .writeHeader | .settle | .refresh => True
  | .eager _ | .endSamples => False

theorem requireIntact_of_broken (h : writer.broken = true) :
    requireIntact writer = .error .broken writer := by
  rw [requireIntact, if_pos h]

/-- A broken writer refuses a call `c` that works on its samples or its header. -/
theorem call_of_broken (h : writer.broken = true) {c : Call} (hc : c.NeedsIntact) :
    call c writer = .error .broken writer := by
  have hrefuse := requireIntact_of_broken h
  cases c with
  | write samples => exact Run.bind_of_error (Run.bind_of_error hrefuse)
  | writeHeader => exact Run.bind_of_error (Run.bind_of_error hrefuse)
  | settle => exact Run.bind_of_error (Run.bind_of_error hrefuse)
  | refresh => exact Run.bind_of_error (Run.bind_of_error hrefuse)
  | eager enabled => exact hc.elim
  | endSamples => exact hc.elim

/-- A broken writer gives back its store as it is. -/
theorem close_of_broken (h : writer.broken = true) :
    writer.close = (.error .broken, writer.store) :=
  if_pos h

/-! ## Calls of a writer that is not broken -/

section Intact

variable (hintact : writer.broken = false)
include hintact

theorem writeHeader_eq_breaking : writeHeader writer = breaking putHeader writer := by
  rw [writeHeader, Run.bind_of_ok (requireIntact_eq hintact)]

theorem settle_eq_breaking : settle writer = breaking putMeasuredHeader writer := by
  rw [settle, Run.bind_of_ok (requireIntact_eq hintact)]

variable {samples : ByteArray} {store : Store} {e : DeviceError}

/-- The `samples` are not taken, or not all of them. -/
theorem write_of_error (h : Store.writeAll samples writer.store = .error e store) :
    write samples writer = .error (.device e) { writer with store } := by
  rw [write, Run.bind_of_ok (requireIntact_eq hintact)]
  exact Run.bind_of_error (onStore_of_error h)

/-- The `samples` are taken, but then the cursor cannot be asked for. -/
theorem write_of_lost (h : Store.writeAll samples writer.store = .ok () store)
    (hlost : Store.position store = .error e store) :
    write samples writer = .error (.device e) { writer with store } := by
  have hask : onStore Store.position { writer with store } =
      .error (.device e) { writer with store } := onStore_of_error hlost
  rw [write, Run.bind_of_ok (requireIntact_eq hintact), Run.bind_of_ok (onStore_of_ok h)]
  exact Run.bind_of_error hask

/-- How a write of `samples` goes, with what it comes to. -/
inductive WriteResult (writer : Writer) (samples : ByteArray) :
    EStateM.Result Error Writer Unit → Prop where
  /-- The samples are not taken, or not all of them. -/
  | short {e : DeviceError} {store : Store}
      (hwrite : Store.writeAll samples writer.store = .error e store) :
      WriteResult writer samples (.error (.device e) { writer with store })
  /-- The samples are taken, but the cursor cannot be asked for. -/
  | lost {e : DeviceError} {store : Store}
      (hwrite : Store.writeAll samples writer.store = .ok () store)
      (hposition : Store.position store = .error e store) :
      WriteResult writer samples (.error (.device e) { writer with store })
  /-- The samples are counted, and what is left to do is what an eager writer does. -/
  | counted {store : Store} (hwrite : Store.writeAll samples writer.store = .ok () store)
      (hposition : Store.position store = .ok store.cursor store) :
      WriteResult writer samples
        ((if writer.eager then settle else pure ()) (writer.withSamples store))

theorem writeResult_write (samples : ByteArray) :
    WriteResult writer samples (write samples writer) := by
  cases hwrite : Store.writeAll samples writer.store with
  | error e store =>
    rw [write_of_error hintact hwrite]
    exact .short hwrite
  | ok _ store =>
    cases hposition : Store.position store with
    | error e left =>
      obtain rfl := Store.position_error hposition
      rw [write_of_lost hintact hwrite hposition]
      exact .lost hwrite hposition
    | ok stop left =>
      obtain ⟨rfl, rfl⟩ := Store.position_ok hposition
      rw [write_of_taken hintact hwrite hposition]
      exact .counted hwrite hposition

end Intact

/-! ## Writers that have just started -/

section Starting

variable {request : StreamRequest} {store store' : Store}

/-- A stream is started for `request` by writing the first header of an empty store. -/
theorem create_eq_ok_iff :
    create request store = .ok writer store' ↔
      ∃ stream claimed started, Stream.requested request = .ok stream ∧
        claimEmpty store = .ok () claimed ∧
        writeHeader (forStream claimed stream .empty) = .ok () started ∧
        writer = started.noteLayout ∧ store' = started.store := by
  unfold create
  cases Stream.requested request with
  | error e => simp
  | ok stream =>
    cases hclaim : claimEmpty store with
    | error e left => simp
    | ok _ claimed =>
      cases hwrite : writeHeader (forStream claimed stream .empty) with
      | error e left => simp [hwrite]
      | ok _ started => simp [hwrite, eq_comm]

/-- A store that can be claimed is empty, and tells so truthfully. -/
theorem claimEmpty_ok {claimed : Store} (h : claimEmpty store = .ok () claimed) :
    store.bytes.size = 0 ∧ store.faults.phantom = 0 ∧
      claimed = store.movedTo 0 store.faults.pace := by
  obtain ⟨existing, measured, hlength, hrest⟩ := Run.bind_eq_ok_iff.1 h
  obtain ⟨hexisting, rfl⟩ := Store.length_ok (Store.explaining_ok hlength)
  by_cases hzero : existing = 0
  case neg =>
    rw [if_pos hzero] at hrest
    obtain ⟨_, _, hthrow, -⟩ := Run.bind_eq_ok_iff.1 hrest
    exact absurd hthrow Run.throw_ne_ok
  rw [if_neg (not_not_intro hzero)] at hrest
  exact ⟨by omega, by omega, Store.seekTo_ok (Store.explaining_ok hrest)⟩

/-- A stream is continued by settling behind its last sample, unless the store is empty. -/
theorem append_eq_ok_iff :
    append request store = .ok writer store' ↔
      (∃ measured, Store.length store = .ok 0 measured ∧
        create request measured = .ok writer store') ∨
      ∃ n measured header scan stop found, Store.length store = .ok (n + 1) measured ∧
        Header.read ⟨measured, .empty⟩ = .ok header scan ∧
        header.stream.region.offset = headerSize ∧ header.stream.region.stop = .ok stop ∧
        Store.seekTo stop scan.store = .ok () found ∧
        settle (forStream found header.stream scan.journal) = .ok () writer ∧
        store' = writer.store := by
  constructor
  · intro h
    unfold append at h
    cases hlength : Store.length store with
    | error e measured =>
      rw [Store.run, Store.explaining_of_error hlength] at h
      cases h
    | ok n measured =>
      rw [Store.run_of_ok hlength] at h
      cases n with
      | zero => exact .inl ⟨measured, rfl, h⟩
      | succ n =>
        -- Whatever is checked before the header is written can only end in an error.
        cases hheader : Header.read ⟨measured, .empty⟩ with
        | error e scan =>
          simp only [hheader] at h
          cases h
        | ok header scan =>
          simp only [hheader] at h
          by_cases hoffset : header.stream.region.offset = headerSize
          case neg =>
            rw [if_pos hoffset] at h
            cases h
          rw [if_neg (not_not_intro hoffset)] at h
          cases hstop : header.stream.region.stop with
          | error defect =>
            simp only [hstop] at h
            cases h
          | ok stop =>
            simp only [hstop] at h
            cases hseek : Store.seekTo stop scan.store with
            | error e found =>
              rw [Store.run, Store.explaining_of_error hseek] at h
              cases h
            | ok _ found =>
              simp only [Store.run_of_ok hseek] at h
              cases hsettle : settle (forStream found header.stream scan.journal) with
              | error e left =>
                simp only [hsettle] at h
                cases h
              | ok _ started =>
                simp only [hsettle] at h
                cases h
                exact .inr ⟨n, measured, header, scan, stop, found, rfl, hheader, hoffset, hstop,
                  hseek, hsettle, rfl⟩
  · rintro (⟨measured, hlength, hcreate⟩ |
      ⟨n, measured, header, scan, stop, found, hlength, hheader, hoffset, hstop, hseek, hsettle,
        rfl⟩)
    · rw [append, Store.run_of_ok hlength]
      exact hcreate
    · rw [append, Store.run_of_ok hlength]
      simp only [hheader, hoffset, ne_eq, not_true_eq_false, ↓reduceIte, hstop,
        Store.run_of_ok hseek, hsettle]

/-- A stream has been started on `store` (`create`), or continued there (`append`). -/
def StartedOn (writer : Writer) (store : Store) : Prop :=
  ∃ request store', create request store = .ok writer store' ∨
    append request store = .ok writer store'

end Starting

end Caf.Writer
