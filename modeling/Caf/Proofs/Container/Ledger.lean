import Caf.Proofs.Container.Settling
import Caf.Proofs.Sample.Description

/-!
# A writer is an append-only list of samples

What a stream holds, apart from headers: the sample bytes that were written, and where the samples
were said to end. A ledger is these two, and calls act on it without a store, a cursor or a header.
On a store that accepts everything, a writer does what its ledger does; when it ends, the store
holds one header for the ledger and the samples of the ledger behind it.

## Main definitions

* `Ledger`: the samples of a stream and their end;
* `Ledger.call`, `Ledger.run`: what calls do to a ledger, and what they answer;
* `Writer.Holds`: the writer has a ledger in its store.

## Main results

* `Writer.holds_call`, `Writer.holds_run`: calls keep store and ledger together;
* `Writer.close_of_session`, `Writer.create_run_close`: what a whole session leaves behind.
-/

namespace Caf

/-- The samples of a stream, and where they end if something else follows them. -/
structure Ledger where
  /-- The bytes that were written. -/
  samples : Bytes
  /-- How many of them are samples, if that was said. -/
  stop : Option Nat
  /-- The samples end within the bytes. -/
  stop_le : ∀ n ∈ stop, n ≤ samples.length

namespace Ledger

/-- A ledger without samples. -/
def empty : Ledger :=
  ⟨[], none, nofun⟩

/-- A ledger with more `samples`. -/
def append (ledger : Ledger) (samples : Bytes) : Ledger where
  samples := ledger.samples ++ samples
  stop := ledger.stop
  stop_le n hn := by
    have := ledger.stop_le n hn
    rw [List.length_append]
    omega

/-- The samples end behind the last byte. -/
def endSamples (ledger : Ledger) : Ledger where
  samples := ledger.samples
  stop := some ledger.samples.length
  stop_le := by rintro _ ⟨rfl⟩; exact Nat.le_refl _

/-- The number of sample bytes that a header declares for `ledger`. -/
def declared (ledger : Ledger) : Nat :=
  ledger.stop.getD ledger.samples.length

/-- What a call does, and what it answers. -/
def call (ledger : Ledger) : Writer.Call → Writer.Answer × Ledger
  | .write samples => (.done, ledger.append samples.data.toList)
  | .endSamples => (.offset (headerSize + ledger.samples.length), ledger.endSamples)
  | _ => (.done, ledger)

/-- What calls do one after the other, and what they answer. -/
def run (ledger : Ledger) : List Writer.Call → List Writer.Answer × Ledger
  | [] => ([], ledger)
  | call :: calls =>
    let (answer, ledger) := ledger.call call
    let (answers, ledger) := ledger.run calls
    (answer :: answers, ledger)

theorem declared_le (ledger : Ledger) : ledger.declared ≤ ledger.samples.length := by
  unfold declared
  cases hstop : ledger.stop with
  | none => exact Nat.le_refl _
  | some n => exact ledger.stop_le n hstop

end Ledger

namespace Writer

/-- The bytes that a call writes. -/
def Call.samples : Call → Bytes
  | .write samples => samples.data.toList
  | _ => []

/-- Does what the calls ask for, one after the other. -/
def run : List Call → WriterM (List Answer)
  | [] => return []
  | c :: calls => do
    let answer ← call c
    let answers ← run calls
    return answer :: answers

/-! ## What a ledger knows -/

end Writer

namespace Ledger

/-- The call `c` adds what it writes. -/
theorem samples_call (ledger : Ledger) (c : Writer.Call) :
    (ledger.call c).2.samples = ledger.samples ++ c.samples := by
  cases c with
  | write samples => rfl
  | _ => exact (List.append_nil _).symm

/-- A run adds what `calls` write, however it is split over them. -/
theorem samples_run (ledger : Ledger) (calls : List Writer.Call) :
    (ledger.run calls).2.samples = ledger.samples ++ calls.flatMap Writer.Call.samples := by
  induction calls generalizing ledger with
  | nil => exact (List.append_nil _).symm
  | cons c calls ih =>
    rw [List.flatMap_cons, ← List.append_assoc, ← samples_call]
    exact ih (ledger.call c).2

/-- What is there stays there, whatever the `calls` are. -/
theorem length_le_run (ledger : Ledger) (calls : List Writer.Call) :
    ledger.samples.length ≤ (ledger.run calls).2.samples.length := by
  rw [samples_run, List.length_append]
  exact Nat.le_add_right ..

/-- Only `endSamples` says where the samples end. -/
theorem stop_call {ledger : Ledger} {c : Writer.Call} (h : c ≠ .endSamples) :
    (ledger.call c).2.stop = ledger.stop := by
  cases c with
  | endSamples => exact absurd rfl h
  | _ => rfl

/-- A run without `endSamples` leaves the end of the samples as it was. -/
theorem stop_run (ledger : Ledger) {calls : List Writer.Call}
    (h : ∀ c ∈ calls, c ≠ .endSamples) : (ledger.run calls).2.stop = ledger.stop := by
  induction calls generalizing ledger with
  | nil => rfl
  | cons c calls ih =>
    have hrest := ih (ledger.call c).2 fun c hc => h c (List.mem_cons_of_mem _ hc)
    exact hrest.trans (stop_call (h c List.mem_cons_self))

theorem run_append (ledger : Ledger) (before after : List Writer.Call) :
    (ledger.run (before ++ after)).2 = ((ledger.run before).2.run after).2 := by
  induction before generalizing ledger with
  | nil => rfl
  | cons c before ih => exact ih (ledger.call c).2

/-- Without an end of the samples, all bytes of `calls` are declared. -/
theorem declared_run {calls : List Writer.Call} (h : ∀ c ∈ calls, c ≠ .endSamples) :
    (empty.run calls).2.declared = (calls.flatMap Writer.Call.samples).length := by
  rw [declared, stop_run empty h, samples_run]
  rfl

/-- Once the end of the samples has been said, as many are declared as there were. -/
theorem declared_endSamples_run (ledger : Ledger) {calls : List Writer.Call}
    (h : ∀ c ∈ calls, c ≠ .endSamples) :
    (ledger.endSamples.run calls).2.declared = ledger.samples.length := by
  rw [declared, stop_run _ h]
  rfl

/-- The last `endSamples` decides how many bytes are declared. -/
theorem declared_run_append {before after : List Writer.Call} (h : ∀ c ∈ after, c ≠ .endSamples) :
    (empty.run (before ++ .endSamples :: after)).2.declared =
      (before.flatMap Writer.Call.samples).length := by
  rw [run_append]
  exact (declared_endSamples_run _ h).trans (by rw [samples_run]; rfl)

end Ledger

namespace Writer

variable {writer : Writer} {d : Description} {origin : Store} {ledger : Ledger} {capacity : Nat}

/-! ## The ledger of a writer -/

/-- The writer of a stream described by `d` has `ledger` in its store: a header, and the bytes of
the ledger behind it. The header declares no more than there is. The store is the one that the
stream was started on, `origin`. -/
structure Holds (writer : Writer) (d : Description) (origin : Store) (ledger : Ledger) : Prop where
  /-- The stream is described. -/
  describe : writer.stream.describe = .ok d
  /-- The samples start behind the header. -/
  start : writer.stream.start = some headerSize
  /-- No more bytes are counted than there are. -/
  length_le : writer.stream.length ≤ ledger.samples.length
  /-- The store holds a header and the bytes. -/
  content : ∃ declared ≤ ledger.samples.length,
    writer.store.content = headerBytes d (Int64.ofNat declared) ++ ledger.samples
  /-- The cursor stands behind the last byte. -/
  cursor : writer.store.cursor = headerSize + ledger.samples.length
  /-- The samples end where the ledger says. -/
  samplesEnd : writer.samplesEnd = ledger.stop.map (headerSize + ·)
  /-- No header write has failed. -/
  intact : writer.broken = false
  /-- The medium is the same. -/
  alike : origin.Alike writer.store

namespace Holds

/-- The store of a writer that `Holds` a ledger ends behind the last byte of the ledger. -/
theorem size (h : writer.Holds d origin ledger) :
    writer.store.bytes.size = headerSize + ledger.samples.length := by
  obtain ⟨declared, -, hcontent⟩ := h.content
  exact Store.size_of_header hcontent

theorem of_alike (h : writer.Holds d origin ledger) {earlier : Store}
    (halike : earlier.Alike origin) : writer.Holds d earlier ledger :=
  ⟨h.describe, h.start, h.length_le, h.content, h.cursor, h.samplesEnd, h.intact,
    halike.trans h.alike⟩

/-- The samples start behind the header. -/
theorem offset (h : writer.Holds d origin ledger) : writer.region.offset = headerSize :=
  offset_of_start h.start

/-- Measuring the store finds the end of the samples in `ledger`. -/
theorem measuredStop_eq (h : writer.Holds d origin ledger) :
    writer.measuredStop = headerSize + ledger.declared := by
  have hle := ledger.declared_le
  rw [measuredStop, h.samplesEnd, h.size]
  unfold Ledger.declared at hle ⊢
  cases hstop : ledger.stop with
  | none => rfl
  | some n =>
    rw [hstop, Option.getD_some] at hle
    simp only [Option.map_some, Option.getD_some]
    split <;> omega

/-- A writer that has measured its store counts what `ledger` declares. -/
theorem length_measured (h : writer.Holds d origin ledger) :
    writer.measured.stream.length = ledger.declared := by
  show writer.measuredStop - writer.region.offset = ledger.declared
  rw [h.measuredStop_eq, h.offset, Nat.add_sub_cancel_left]

/-- A writer that has measured its store has the same ledger. -/
theorem measured (h : writer.Holds d origin ledger) : writer.measured.Holds d origin ledger :=
  ⟨h.describe, h.start, h.length_measured ▸ ledger.declared_le, h.content, h.cursor, h.samplesEnd,
    h.intact, h.alike⟩

/-- A header over the old one, for a size of `declared`, leaves the ledger as it was. -/
theorem withHeader (h : writer.Holds d origin ledger) {store : Store} {declared : Nat}
    (hdeclared : declared ≤ ledger.samples.length)
    (hcontent : store.content =
      Bytes.splice writer.store.content 0 (headerBytes d (Int64.ofNat declared)))
    (hcursor : store.cursor = max writer.store.cursor headerSize)
    (halike : writer.store.Alike store) :
    (writer.withHeader d store).Holds d origin ledger ∧
      store.content = headerBytes d (Int64.ofNat declared) ++ ledger.samples := by
  obtain ⟨old, -, hold⟩ := h.content
  -- Every header has the same length, so that the new one covers the old one and no more.
  have hnew : store.content = headerBytes d (Int64.ofNat declared) ++ ledger.samples := by
    rw [hcontent, hold, Bytes.splice_append (by simp only [length_headerBytes])]
  have hback : store.cursor = headerSize + ledger.samples.length := by
    rw [hcursor, h.cursor]
    omega
  exact ⟨⟨h.describe, rfl, h.length_le, ⟨declared, hdeclared, hnew⟩, hback, h.samplesEnd, h.intact,
    h.alike.trans halike⟩, hnew⟩

/-- The cursor stands at the end of the store, where data is appended. -/
theorem content_of_took (h : writer.Holds d origin ledger) {samples : Bytes} {store : Store}
    (htook : writer.store.Took samples store) :
    store.content = writer.store.content ++ samples := by
  have hend : writer.store.cursor = writer.store.content.length := by
    rw [h.cursor, Store.length_content, h.size]
  rw [htook.content, hend, Bytes.splice_length]

/-- The `samples` at the cursor are appended to the ledger. -/
theorem withSamples (h : writer.Holds d origin ledger) {samples : Bytes} {store : Store}
    (htook : writer.store.Took samples store) (halike : writer.store.Alike store) :
    (writer.withSamples store).Holds d origin (ledger.append samples) := by
  obtain ⟨declared, hdeclared, hcontent⟩ := h.content
  have hcursor : store.cursor = headerSize + (ledger.samples ++ samples).length := by
    rw [htook.cursor, h.cursor, List.length_append, Nat.add_assoc]
  have hnew : store.content =
      headerBytes d (Int64.ofNat declared) ++ (ledger.samples ++ samples) := by
    rw [h.content_of_took htook, hcontent, List.append_assoc]
  have hmore : declared ≤ (ledger.samples ++ samples).length := by
    rw [List.length_append]
    omega
  -- The stream counts up to the cursor at most.
  have hlength : max writer.stream.length (store.cursor - writer.region.offset) ≤
      (ledger.samples ++ samples).length := by
    have hle := h.length_le
    rw [hcursor, h.offset, Nat.add_sub_cancel_left, List.length_append]
    omega
  exact ⟨h.describe, h.start, hlength, ⟨declared, hmore, hnew⟩, hcursor, h.samplesEnd, h.intact,
    h.alike.trans halike⟩

end Holds

/-! ## Calls -/

/-- Settling keeps `ledger`, counts what it declares, and writes the header for it. -/
theorem settle_of_holds (h : writer.Holds d origin ledger) (haccepting : origin.Accepting capacity)
    (hroom : headerSize + ledger.samples.length ≤ capacity) :
    ∃ writer', settle writer = .ok () writer' ∧ writer'.Holds d origin ledger ∧
      writer'.stream.length = ledger.declared ∧
      writer'.store.content =
        headerBytes d (Int64.ofNat ledger.declared) ++ ledger.samples := by
  obtain ⟨store, hsettle, hcontent, hcursor, halike⟩ := settle_eq h.intact h.describe
    h.offset (haccepting.of_alike h.alike)
    (Nat.le_trans (Nat.le_add_right ..) hroom) (h.cursor ▸ hroom) (h.size ▸ hroom)
  rw [h.measuredStop_eq, Nat.add_sub_cancel_left] at hcontent
  obtain ⟨hholds, hnew⟩ := h.measured.withHeader ledger.declared_le hcontent hcursor halike
  exact ⟨_, hsettle, hholds, h.length_measured, hnew⟩

/-- Writing the header for the stream as it is keeps `ledger`, and declares what is counted. -/
theorem writeHeader_of_holds (h : writer.Holds d origin ledger)
    (haccepting : origin.Accepting capacity)
    (hroom : headerSize + ledger.samples.length ≤ capacity) :
    ∃ writer', writeHeader writer = .ok () writer' ∧ writer'.Holds d origin ledger ∧
      writer'.stream.length = writer.stream.length ∧
      writer'.store.content =
        headerBytes d (Int64.ofNat writer.stream.length) ++ ledger.samples := by
  have hlength : writer.stream.length < 2 ^ 63 :=
    Nat.lt_of_le_of_lt (Nat.le_trans h.length_le (Nat.le_trans (Nat.le_add_left ..) hroom))
      haccepting.capacity_lt
  obtain ⟨store, hput, hcontent, hcursor, halike⟩ := putHeader_eq h.describe hlength
    h.offset (haccepting.of_alike h.alike)
    (Nat.le_trans (Nat.le_add_right ..) hroom) (h.cursor ▸ hroom)
  obtain ⟨hholds, hnew⟩ := h.withHeader h.length_le hcontent hcursor halike
  refine ⟨_, ?_, hholds, rfl, hnew⟩
  rw [writeHeader, Run.bind_of_ok (requireIntact_eq h.intact)]
  exact breaking_of_ok hput

/-- The `samples` that are written are taken and counted, and an eager writer then settles. -/
theorem write_eq_of_holds (h : writer.Holds d origin ledger)
    (haccepting : origin.Accepting capacity) (samples : ByteArray)
    (hroom : headerSize + (ledger.append samples.data.toList).samples.length ≤ capacity) :
    ∃ store, write samples writer =
        (if writer.eager then settle else pure ()) (writer.withSamples store) ∧
      (writer.withSamples store).Holds d origin (ledger.append samples.data.toList) ∧
      store.content = writer.store.content ++ samples.data.toList := by
  have hstore := haccepting.of_alike h.alike
  have hend : writer.store.cursor + samples.size ≤ capacity := by
    have hlength : (ledger.append samples.data.toList).samples.length =
        ledger.samples.length + samples.size := by
      rw [Ledger.append, List.length_append, Array.length_toList, ByteArray.size_data]
    rw [h.cursor]
    omega
  obtain ⟨store, hwrite, htook⟩ := write_eq h.intact hstore
    (Nat.le_of_eq (by rw [h.cursor, h.size])) samples hend
  exact ⟨store, hwrite, h.withSamples htook (hstore.alike_of_took htook), h.content_of_took htook⟩

/-- Writing `samples` appends them to the ledger, also where the writer settles at once. -/
theorem write_of_holds (h : writer.Holds d origin ledger) (haccepting : origin.Accepting capacity)
    (samples : ByteArray)
    (hroom : headerSize + (ledger.append samples.data.toList).samples.length ≤ capacity) :
    ∃ writer', write samples writer = .ok () writer' ∧
      writer'.Holds d origin (ledger.append samples.data.toList) := by
  obtain ⟨store, hwrite, hholds, -⟩ := write_eq_of_holds h haccepting samples hroom
  rw [hwrite]
  cases writer.eager with
  | false => exact ⟨_, rfl, hholds⟩
  | true =>
    obtain ⟨writer', hsettle, hholds', -⟩ := settle_of_holds hholds haccepting hroom
    exact ⟨writer', hsettle, hholds'⟩

/-- The end of the samples goes into the ledger, and is answered as an offset. -/
theorem endSamples_of_holds (h : writer.Holds d origin ledger)
    (haccepting : origin.Accepting capacity) :
    ∃ writer', endSamples writer = .ok (headerSize + ledger.samples.length) writer' ∧
      writer'.Holds d origin ledger.endSamples := by
  have hposition := Store.position_eq (haccepting.of_alike h.alike).seek
  refine ⟨{ writer with samplesEnd := some writer.store.cursor }, ?_, ?_⟩
  · rw [endSamples, Run.bind_of_ok (onStore_of_ok hposition), ← h.cursor]
    rfl
  · have hmark : some writer.store.cursor = ledger.endSamples.stop.map (headerSize + ·) :=
      congrArg some h.cursor
    exact ⟨h.describe, h.start, h.length_le, h.content, h.cursor, hmark, h.intact, h.alike⟩

/-- The call `c` does to the writer what it does to `ledger`, and answers the same. -/
theorem holds_call (h : writer.Holds d origin ledger) (haccepting : origin.Accepting capacity)
    (c : Call) (hroom : headerSize + (ledger.call c).2.samples.length ≤ capacity) :
    ∃ writer', call c writer = .ok (ledger.call c).1 writer' ∧
      writer'.Holds d origin (ledger.call c).2 := by
  cases c with
  | write samples =>
    obtain ⟨writer', hwrite, hholds⟩ := write_of_holds h haccepting samples hroom
    exact ⟨writer', Run.bind_of_ok hwrite, hholds⟩
  | writeHeader =>
    obtain ⟨writer', hwrite, hholds, -⟩ := writeHeader_of_holds h haccepting hroom
    exact ⟨writer', Run.bind_of_ok hwrite, hholds⟩
  | settle =>
    obtain ⟨writer', hsettle, hholds, -⟩ := settle_of_holds h haccepting hroom
    exact ⟨writer', Run.bind_of_ok hsettle, hholds⟩
  | refresh =>
    obtain ⟨writer', hsettle, hholds, -⟩ := settle_of_holds h haccepting hroom
    exact ⟨writer', Run.bind_of_ok hsettle, hholds⟩
  | eager enabled =>
    exact ⟨{ writer with eager := enabled }, rfl, h.describe, h.start, h.length_le, h.content,
      h.cursor, h.samplesEnd, h.intact, h.alike⟩
  | endSamples =>
    obtain ⟨writer', hend, hholds⟩ := endSamples_of_holds h haccepting
    exact ⟨writer', Run.bind_of_ok hend, hholds⟩

/-- A run of `calls` does to the writer what it does to `ledger`, and answers the same. -/
theorem holds_run (h : writer.Holds d origin ledger) (haccepting : origin.Accepting capacity)
    (calls : List Call) (hroom : headerSize + (ledger.run calls).2.samples.length ≤ capacity) :
    ∃ writer', run calls writer = .ok (ledger.run calls).1 writer' ∧
      writer'.Holds d origin (ledger.run calls).2 := by
  induction calls generalizing writer ledger with
  | nil => exact ⟨writer, rfl, h⟩
  | cons c calls ih =>
    -- What is there after the first call is there in the end.
    have hfirst : headerSize + (ledger.call c).2.samples.length ≤ capacity :=
      Nat.le_trans (Nat.add_le_add_left ((ledger.call c).2.length_le_run calls) _) hroom
    obtain ⟨writer₁, hcall, hholds₁⟩ := holds_call h haccepting c hfirst
    obtain ⟨writer₂, hrun, hholds₂⟩ := ih hholds₁ hroom
    refine ⟨writer₂, ?_, hholds₂⟩
    rw [run, Run.bind_of_ok hcall, Run.bind_of_ok hrun]
    rfl

/-! ## Sessions -/

/-- Closing settles the header, and gives back the store. -/
theorem close_of_holds (h : writer.Holds d origin ledger) (haccepting : origin.Accepting capacity)
    (hroom : headerSize + ledger.samples.length ≤ capacity) :
    ∃ writer' : Writer, writer.close = (.ok (), writer'.store) ∧ writer'.Holds d origin ledger ∧
      writer'.store.content =
        headerBytes d (Int64.ofNat ledger.declared) ++ ledger.samples := by
  obtain ⟨writer', hsettle, hholds, -, hcontent⟩ := settle_of_holds h haccepting hroom
  refine ⟨writer', ?_, hholds, hcontent⟩
  rw [close, hsettle]
  simp only [h.intact, Bool.false_eq_true, ↓reduceIte]

/-- The store of a writer can be read, unless bytes of `origin` are bad. -/
theorem Holds.readable (h : writer.Holds d origin ledger) (haccepting : origin.Accepting capacity)
    (hroom : headerSize + ledger.samples.length ≤ capacity) (hbad : origin.faults.bad = none) :
    writer.store.Readable := by
  have hstore := haccepting.of_alike h.alike
  have hgood : writer.store.faults.bad = none := by
    obtain ⟨pace, hfaults⟩ := h.alike.faults
    rw [hfaults]
    exact hbad
  exact ⟨hstore.seek, hgood, hstore.phantom, Nat.le_trans (h.cursor ▸ hroom) hstore.reach,
    Nat.le_trans (h.size ▸ hroom) hstore.reach⟩

/-- Recording the layout changes nothing but the journal. -/
theorem Holds.noteLayout (h : writer.Holds d origin ledger) :
    writer.noteLayout.Holds d origin ledger := by
  unfold Writer.noteLayout
  cases writer.draft.description with
  | none => exact h
  | some description =>
    exact ⟨h.describe, h.start, h.length_le, h.content, h.cursor, h.samplesEnd, h.intact, h.alike⟩

/-- An empty store can be claimed; its cursor then stands at the start. -/
theorem claimEmpty_eq {store : Store} (hempty : store.bytes.size = 0)
    (hcursor : store.cursor ≤ store.medium.reach) (haccepting : store.Accepting capacity) :
    claimEmpty store = .ok () (store.movedTo 0 store.faults.pace) := by
  have hlength := Store.length_eq haccepting.seek haccepting.phantom hcursor
    (hempty ▸ Nat.zero_le _)
  rw [claimEmpty, Run.bind_of_ok (Store.run_of_ok hlength)]
  simp only [hempty, ne_eq, not_true_eq_false, ↓reduceIte]
  exact Store.run_of_ok (Store.seekTo_eq haccepting.seek (Nat.zero_le _))

/-- In an empty store a `request` that passes its checks starts a stream without samples. -/
theorem create_holds {store : Store} {request : StreamRequest} (hrequest : request.check = .ok ())
    (hempty : store.bytes.size = 0) (hcursor : store.cursor ≤ store.medium.reach)
    (haccepting : store.Accepting capacity) (hroom : headerSize ≤ capacity) :
    ∃ writer, create request store = .ok writer writer.store ∧
      writer.Holds request.stream.description store .empty := by
  have hdescribe := StreamRequest.describe_eq hrequest
  have halike₀ := Store.Alike.movedTo store 0 store.faults.pace
  let blank := forStream (store.movedTo 0 store.faults.pace) request.stream .empty
  have hblank : blank.stream.describe = .ok request.stream.description := hdescribe
  obtain ⟨started, hput, hcontent, hback, halike⟩ := putHeader_eq hblank (Nat.two_pow_pos 63) rfl
    (haccepting.of_alike halike₀) hroom (Nat.zero_le _)
  have hwrite : writeHeader blank =
      .ok () (blank.withHeader request.stream.description started) := by
    rw [writeHeader, Run.bind_of_ok (requireIntact_eq rfl)]
    exact breaking_of_ok hput
  -- Nothing is there that the first header could go over.
  have hnil : store.content = [] := by
    rw [← List.length_eq_zero_iff, Store.length_content, hempty]
  have hheader : started.content = headerBytes request.stream.description 0 ++ [] := by
    rw [hcontent]
    show Bytes.splice store.content 0 _ = _
    rw [hnil, List.append_nil]
    exact Bytes.splice_length [] _
  have hholds : (blank.withHeader request.stream.description started).Holds
      request.stream.description store .empty :=
    ⟨hdescribe, rfl, Nat.le_refl 0, ⟨0, Nat.le_refl 0, hheader⟩, hback, rfl, rfl,
      halike₀.trans halike⟩
  refine ⟨_, ?_, hholds.noteLayout⟩
  rw [create, StreamRequest.requested_eq hrequest]
  simp only [claimEmpty_eq hempty hcursor haccepting]
  rw [show writeHeader (forStream (store.movedTo 0 store.faults.pace) request.stream .empty) = _
    from hwrite]
  rfl

/-- A session of `calls` on an empty store that accepts everything leaves what its ledger has, and
the store can be read unless bytes of it are bad. -/
theorem close_of_session {store : Store} (request : StreamRequest) (calls : List Call)
    (hrequest : request.check = .ok ()) (hempty : store.bytes.size = 0)
    (hcursor : store.cursor ≤ store.medium.reach)
    (haccepting : store.Accepting (headerSize + (calls.flatMap Call.samples).length)) :
    ∃ writer writer', create request store = .ok writer writer.store ∧
      run calls writer = .ok (Ledger.empty.run calls).1 writer' ∧
      writer'.close.1 = .ok () ∧
      writer'.close.2.content = headerBytes request.stream.description
        (Int64.ofNat (Ledger.empty.run calls).2.declared) ++ calls.flatMap Call.samples ∧
      store.Alike writer'.close.2 ∧ (store.faults.bad = none → writer'.close.2.Readable) := by
  have hsamples : (Ledger.empty.run calls).2.samples = calls.flatMap Call.samples :=
    Ledger.empty.samples_run calls
  have hroom : headerSize + (Ledger.empty.run calls).2.samples.length ≤
      headerSize + (calls.flatMap Call.samples).length := Nat.le_of_eq (by rw [hsamples])
  obtain ⟨writer, hcreate, hholds⟩ := create_holds hrequest hempty hcursor haccepting
    (Nat.le_add_right ..)
  obtain ⟨writer', hrun, hholds'⟩ := holds_run hholds haccepting calls hroom
  obtain ⟨closed, hclose, hclosed, hcontent⟩ := close_of_holds hholds' haccepting hroom
  rw [hsamples] at hcontent
  refine ⟨writer, writer', hcreate, hrun, ?_⟩
  rw [hclose]
  exact ⟨rfl, hcontent, hclosed.alike, hclosed.readable haccepting hroom⟩

/-- A session of `calls` on an empty store that accepts everything succeeds as a whole and leaves
one header with the samples behind it, part by part the header of `request` with `declared` for its
size. That size is the number of all bytes, or of those in front of the last end of the samples. -/
theorem create_run_close {store : Store} (request : StreamRequest) (calls : List Call)
    (hrequest : request.check = .ok ()) (hempty : store.bytes.size = 0)
    (hcursor : store.cursor ≤ store.medium.reach)
    (haccepting : store.Accepting (headerSize + (calls.flatMap Call.samples).length)) :
    ∃ writer writer' declared, create request store = .ok writer writer.store ∧
      run calls writer = .ok (Ledger.empty.run calls).1 writer' ∧
      writer'.close.1 = .ok () ∧
      writer'.close.2.content = headerBytes request.stream.description (Int64.ofNat declared) ++
        calls.flatMap Call.samples ∧
      HeaderReads writer'.close.2.content request.stream.description (Int64.ofNat declared)
        (calls.flatMap Call.samples) ∧
      writer'.release.content = writer'.close.2.content ∧
      ((∀ c ∈ calls, c ≠ .endSamples) → declared = (calls.flatMap Call.samples).length) ∧
      ∀ before after, calls = before ++ .endSamples :: after → (∀ c ∈ after, c ≠ .endSamples) →
        declared = (before.flatMap Call.samples).length := by
  obtain ⟨writer, writer', hcreate, hrun, hclose, hcontent, -, -⟩ :=
    close_of_session request calls hrequest hempty hcursor haccepting
  refine ⟨writer, writer', (Ledger.empty.run calls).2.declared, hcreate, hrun, hclose, hcontent,
    hcontent ▸ headerReads_append .., rfl, Ledger.declared_run, ?_⟩
  rintro before after rfl hafter
  exact Ledger.declared_run_append hafter

/-- Three bytes are written by an eager writer, and the first two of them are samples. -/
theorem create_run_close_eager :
    ∃ writer writer', create (.mono .pcm16 44100) { bytes := .empty } = .ok writer writer.store ∧
      run [.write ⟨#[1, 2]⟩, .eager true, .endSamples, .write ⟨#[3]⟩] writer =
        .ok [.done, .done, .offset 70, .done] writer' ∧
      writer'.close.1 = .ok () ∧
      writer'.close.2.content =
        headerBytes (StreamRequest.mono .pcm16 44100).stream.description 2 ++ [1, 2, 3] := by
  have haccepting : Store.Accepting { bytes := .empty } 71 :=
    ⟨rfl, rfl, rfl, rfl, rfl, by decide, by rintro _ ⟨rfl⟩; decide, by decide⟩
  obtain ⟨writer, writer', declared, hcreate, hrun, hclose, hcontent, -, -, -, hstop⟩ :=
    create_run_close (.mono .pcm16 44100)
      [.write ⟨#[1, 2]⟩, .eager true, .endSamples, .write ⟨#[3]⟩] rfl rfl (Nat.zero_le _)
      haccepting
  have hdeclared := hstop [.write ⟨#[1, 2]⟩, .eager true] [.write ⟨#[3]⟩] rfl (by simp)
  rw [hdeclared] at hcontent
  exact ⟨writer, writer', hcreate, hrun, hclose, hcontent⟩

end Writer

end Caf
