import Caf.Container.Writer
import Caf.Proofs.Store.Writing

/-!
# Operations of a writer whose store accepts them

What the operations of a writer do when its store accepts everything that is written. A header goes
over the first bytes of the store and the cursor comes back; settling (`finalize`) measures the
store first. All that a header write changes in the writer is named: the store, the place and the
length of the samples, and the draft.

## Main definitions

* `Store.Open`: a store without faults whose cursor and whose end the medium has offsets for.

## Main results

* `Writer.putHeader_of_reach`, `Writer.putHeader_eq`: a header is written;
* `Writer.settle_of_open`, `Writer.settle_eq`: the header is written for the length that the store
  has;
* `Writer.write_eq`: sample bytes are written.
-/

namespace Caf

/-- Recording the offset `headerSize` succeeds where no other is known. -/
theorem Stream.locate_eq {stream : Stream} (h : stream.start.getD headerSize = headerSize) :
    stream.locate headerSize = .ok { stream with start := some headerSize } := by
  unfold locate
  cases hstart : stream.start with
  | none => rfl
  | some known =>
    rw [hstart] at h
    have hknown : known = headerSize := h
    simp only [hknown, ↓reduceIte]
    rw [← hknown, ← hstart]

/-- A store with a header and `rest` behind it ends there. -/
theorem Store.size_of_header {store : Store} {d : Description} {declared : Int64} {rest : Bytes}
    (hcontent : store.content = headerBytes d declared ++ rest) :
    store.bytes.size = headerSize + rest.length := by
  rw [← length_content, hcontent, List.length_append, length_headerBytes]

/-- A store that takes a header, and that can be measured. -/
structure Store.Open (store : Store) : Prop where
  /-- No fault is in force, and a header is taken. -/
  accepting : store.Accepting headerSize
  /-- The cursor is at an offset that the medium has. -/
  cursor : store.cursor ≤ store.medium.reach
  /-- The end of the bytes is at an offset that the medium has. -/
  size : store.bytes.size ≤ store.medium.reach
  /-- The number of bytes can be declared. -/
  size_lt : store.bytes.size < 2 ^ 63

/-- A store that ends below its `capacity` can be measured. -/
theorem Store.Accepting.opens {store : Store} {capacity : Nat} (h : store.Accepting capacity)
    (hheader : headerSize ≤ capacity) (hcursor : store.cursor ≤ capacity)
    (hsize : store.bytes.size ≤ capacity) : store.Open where
  accepting := h.mono hheader
  cursor := Nat.le_trans hcursor h.reach
  size := Nat.le_trans hsize h.reach
  size_lt := Nat.lt_of_le_of_lt hsize h.capacity_lt

/-- A store that can be read is measured as it is, wherever its cursor stands. -/
theorem Store.Readable.opens {store : Store} {capacity : Nat} (h : store.Readable)
    (haccepting : store.Accepting capacity) (hheader : headerSize ≤ capacity)
    (hsize : store.bytes.size ≤ capacity) : store.Open where
  accepting := haccepting.mono hheader
  cursor := h.cursor
  size := h.size
  size_lt := Nat.lt_of_le_of_lt hsize haccepting.capacity_lt

namespace Writer

/-! ## Steps, on the fields of a writer -/

section Steps

variable {store store' : Store} {stream : Stream} {draft : HeaderDraft} {journal : Journal}
  {samplesEnd : Option Nat} {eager broken : Bool} {d : Description}

/-- An `operation` on the store changes nothing else. -/
theorem onStore_of_ok {α : Type} {operation : StoreM α} {x : α}
    (h : operation store = .ok x store') :
    onStore operation ⟨store, stream, draft, journal, samplesEnd, eager, broken⟩ =
      .ok x ⟨store', stream, draft, journal, samplesEnd, eager, broken⟩ := by
  rw [onStore, Store.run_of_ok h]

/-- The header of a stream that can be described, as `d`, is composed. -/
theorem compose_eq (hdescribe : stream.describe = .ok d) (hlength : stream.length < 2 ^ 63) :
    compose ⟨store, stream, draft, journal, samplesEnd, eager, broken⟩ =
      .ok (headerBytes d (Int64.ofNat stream.length))
        ⟨store, stream, ⟨headerBytes d (Int64.ofNat stream.length), some d⟩, journal, samplesEnd,
          eager, broken⟩ := by
  rw [compose, HeaderDraft.compose, hdescribe]
  simp only [if_pos hlength]

theorem locate_eq (h : stream.start.getD headerSize = headerSize) :
    locate headerSize ⟨store, stream, draft, journal, samplesEnd, eager, broken⟩ =
      .ok () ⟨store, { stream with start := some headerSize }, draft, journal, samplesEnd, eager,
        broken⟩ := by
  rw [locate, Stream.locate_eq h]

end Steps

/-! ## Headers -/

variable {writer : Writer} {capacity : Nat} {d : Description}

/-- The region of a stream starts at `offset` where the stream does. -/
theorem offset_of_start {offset : Nat} (h : writer.stream.start = some offset) :
    writer.region.offset = offset := by
  rw [region, Stream.region, h, Option.getD_some]

theorem requireIntact_eq (h : writer.broken = false) : requireIntact writer = .ok () writer := by
  simp only [requireIntact, h, Bool.false_eq_true, ↓reduceIte]

theorem breaking_of_ok {operation : WriterM Unit} {writer' : Writer}
    (h : operation writer = .ok () writer') : breaking operation writer = .ok () writer' := by
  rw [breaking, h]

/-- The writer once the header has been written for its stream, described by `d`, with the `store`
that this left. -/
def withHeader (writer : Writer) (d : Description) (store : Store) : Writer :=
  { writer with
    store
    stream := { writer.stream with start := some headerSize }
    draft := ⟨headerBytes d (Int64.ofNat writer.stream.length), some d⟩ }

/-- The header of the stream goes over the first bytes of the store, and the cursor comes back to
wherever the medium has offsets. -/
theorem putHeader_of_reach (hdescribe : writer.stream.describe = .ok d)
    (hlength : writer.stream.length < 2 ^ 63)
    (hstart : writer.stream.start.getD headerSize = headerSize)
    (haccepting : writer.store.Accepting headerSize)
    (hcursor : writer.store.cursor ≤ writer.store.medium.reach) :
    ∃ store, putHeader writer = .ok () (writer.withHeader d store) ∧
      store.content = Bytes.splice writer.store.content 0
        (headerBytes d (Int64.ofNat writer.stream.length)) ∧
      store.cursor = max writer.store.cursor headerSize ∧ writer.store.Alike store := by
  let bytes := headerBytes d (Int64.ofNat writer.stream.length)
  have hsize : bytes.toByteArray.size = headerSize := by
    rw [List.size_toByteArray, length_headerBytes]
  -- The cursor goes to the start and the header is written there.
  have hzero := Store.seekTo_eq haccepting.seek (Nat.zero_le writer.store.medium.reach)
  have halike₀ := Store.Alike.movedTo writer.store 0 writer.store.faults.pace
  have haccepting₀ := haccepting.of_alike halike₀
  obtain ⟨store₁, hwrite, htook⟩ := haccepting₀.writeAll_eq (Nat.zero_le _) bytes.toByteArray
    (Nat.le_of_eq (by rw [hsize, Store.movedTo_cursor, Nat.zero_add]))
  have halike₁ := halike₀.trans (haccepting₀.alike_of_took htook)
  have haccepting₁ := haccepting.of_alike halike₁
  -- Then the cursor goes back to where it was, or stays behind the header.
  have hresume : max writer.store.cursor headerSize ≤ store₁.medium.reach := by
    rw [halike₁.medium]
    exact Nat.max_le.2 ⟨hcursor, haccepting.reach⟩
  refine ⟨_, ?_, ?_, rfl, halike₁.trans (.movedTo store₁ _ store₁.faults.pace)⟩
  · rw [putHeader, Run.bind_of_ok (onStore_of_ok (Store.position_eq haccepting.seek)),
      Run.bind_of_ok (compose_eq hdescribe hlength), Run.bind_of_ok (onStore_of_ok hzero),
      Run.bind_of_ok (onStore_of_ok hwrite)]
    simp only [length_headerBytes]
    rw [Run.bind_of_ok (locate_eq hstart)]
    exact onStore_of_ok (Store.seekTo_eq haccepting₁.seek hresume)
  · rw [Store.movedTo_content, htook.content, List.toList_data_toByteArray]
    rfl

/-- Below the capacity of the store, the cursor is at an offset that the medium has. -/
theorem putHeader_eq (hdescribe : writer.stream.describe = .ok d)
    (hlength : writer.stream.length < 2 ^ 63)
    (hstart : writer.stream.start.getD headerSize = headerSize)
    (haccepting : writer.store.Accepting capacity) (hheader : headerSize ≤ capacity)
    (hcursor : writer.store.cursor ≤ capacity) :
    ∃ store, putHeader writer = .ok () (writer.withHeader d store) ∧
      store.content = Bytes.splice writer.store.content 0
        (headerBytes d (Int64.ofNat writer.stream.length)) ∧
      store.cursor = max writer.store.cursor headerSize ∧ writer.store.Alike store :=
  putHeader_of_reach hdescribe hlength hstart (haccepting.mono hheader)
    (Nat.le_trans hcursor haccepting.reach)

/-- Where the samples end, for the length that the store has. -/
def measuredStop (writer : Writer) : Nat :=
  match writer.samplesEnd with
  | some mark => if mark < writer.store.bytes.size then mark else writer.store.bytes.size
  | none => writer.store.bytes.size

theorem measuredStop_le (writer : Writer) : writer.measuredStop ≤ writer.store.bytes.size := by
  unfold measuredStop
  split
  · split <;> omega
  · exact Nat.le_refl _

/-- The writer with the length that its store has. -/
def measured (writer : Writer) : Writer :=
  { writer with
    stream := { writer.stream with length := writer.measuredStop - writer.region.offset } }

/-- Settling writes the header for the length that the store has, wherever the store ends. -/
theorem settle_of_open (hintact : writer.broken = false)
    (hdescribe : writer.stream.describe = .ok d)
    (hstart : writer.stream.start.getD headerSize = headerSize) (hopen : writer.store.Open) :
    ∃ store, settle writer = .ok () (writer.measured.withHeader d store) ∧
      store.content = Bytes.splice writer.store.content 0
        (headerBytes d (Int64.ofNat (writer.measuredStop - headerSize))) ∧
      store.cursor = max writer.store.cursor headerSize ∧ writer.store.Alike store := by
  have hoffset : writer.region.offset = headerSize := hstart
  have haccepting := hopen.accepting
  have hmeasure := Store.length_eq haccepting.seek haccepting.phantom hopen.cursor hopen.size
  -- What is declared was measured.
  have hlength : writer.measured.stream.length < 2 ^ 63 :=
    Nat.lt_of_le_of_lt (Nat.le_trans (Nat.sub_le ..) writer.measuredStop_le) hopen.size_lt
  have hmeasured : writer.measured.stream.describe = .ok d := hdescribe
  obtain ⟨store, hput, hcontent, hback, halike⟩ :=
    putHeader_of_reach hmeasured hlength hstart haccepting hopen.cursor
  have hflush := (haccepting.of_alike halike).flush_eq
  have hget : (get : WriterM Writer) writer = .ok writer writer := rfl
  have hset : setLength (writer.measuredStop - writer.region.offset) writer =
      .ok () writer.measured := rfl
  refine ⟨store, ?_, ?_, hback, halike⟩
  · rw [settle, Run.bind_of_ok (requireIntact_eq hintact)]
    refine breaking_of_ok ?_
    rw [putMeasuredHeader, Run.bind_of_ok (onStore_of_ok haccepting.flush_eq),
      Run.bind_of_ok (onStore_of_ok hmeasure), Run.bind_of_ok hget]
    exact (Run.bind_of_ok hset).trans ((Run.bind_of_ok hput).trans (onStore_of_ok hflush))
  · rw [hcontent, ← hoffset]
    rfl

/-- Below its `capacity`, the store ends at an offset that the medium has. -/
theorem settle_eq (hintact : writer.broken = false) (hdescribe : writer.stream.describe = .ok d)
    (hstart : writer.stream.start.getD headerSize = headerSize)
    (haccepting : writer.store.Accepting capacity) (hheader : headerSize ≤ capacity)
    (hcursor : writer.store.cursor ≤ capacity) (hsize : writer.store.bytes.size ≤ capacity) :
    ∃ store, settle writer = .ok () (writer.measured.withHeader d store) ∧
      store.content = Bytes.splice writer.store.content 0
        (headerBytes d (Int64.ofNat (writer.measuredStop - headerSize))) ∧
      store.cursor = max writer.store.cursor headerSize ∧ writer.store.Alike store :=
  settle_of_open hintact hdescribe hstart (haccepting.opens hheader hcursor hsize)

/-! ## Samples -/

/-- The writer once samples have been taken, with the `store` that this left. -/
def withSamples (writer : Writer) (store : Store) : Writer :=
  { writer with
    store
    stream := { writer.stream with
      length := max writer.stream.length (store.cursor - writer.region.offset) } }

/-- The `samples` that are taken are counted, and an eager writer goes on to settle. -/
theorem write_of_taken (hintact : writer.broken = false) {samples : ByteArray} {store : Store}
    (h : Store.writeAll samples writer.store = .ok () store)
    (hfound : Store.position store = .ok store.cursor store) :
    write samples writer =
      (if writer.eager then settle else pure ()) (writer.withSamples store) := by
  have hget : (get : WriterM Writer) { writer with store } =
      .ok { writer with store } { writer with store } := rfl
  rw [write, Run.bind_of_ok (requireIntact_eq hintact), Run.bind_of_ok (onStore_of_ok h),
    Run.bind_of_ok (onStore_of_ok hfound), Run.bind_of_ok hget]
  -- The length only grows: what was overwritten in front of the end counts once.
  by_cases hlonger : writer.stream.length <
    store.cursor - ({ writer with store } : Writer).region.offset
  case pos =>
    have hset : setLength (store.cursor - writer.region.offset) { writer with store } =
        .ok () (writer.withSamples store) := by
      have hmax : max writer.stream.length (store.cursor - writer.region.offset) =
          store.cursor - writer.region.offset := Nat.max_eq_right (Nat.le_of_lt hlonger)
      rw [withSamples, hmax]
      rfl
    simp only [if_pos hlonger]
    exact Run.bind_of_ok hset
  case neg =>
    have hsame : writer.withSamples store = { writer with store } := by
      have hmax : max writer.stream.length (store.cursor - writer.region.offset) =
          writer.stream.length := Nat.max_eq_left (Nat.le_of_not_lt hlonger)
      rw [withSamples, hmax]
    simp only [if_neg hlonger, hsame]

/-- The bytes of `samples` go to where the cursor is, and the length of the stream covers them. An
eager writer then settles. -/
theorem write_eq (hintact : writer.broken = false) (haccepting : writer.store.Accepting capacity)
    (hcursor : writer.store.cursor ≤ writer.store.bytes.size) (samples : ByteArray)
    (hroom : writer.store.cursor + samples.size ≤ capacity) :
    ∃ store, write samples writer =
        (if writer.eager then settle else pure ()) (writer.withSamples store) ∧
      writer.store.Took samples.data.toList store := by
  obtain ⟨store, hwrite, htook⟩ := haccepting.writeAll_eq hcursor samples hroom
  have hseek := (haccepting.of_alike (haccepting.alike_of_took htook)).seek
  exact ⟨store, write_of_taken hintact hwrite (Store.position_eq hseek), htook⟩

end Writer

end Caf
