import Caf.Proofs.Container.Events
import Caf.Proofs.Container.Roundtrip

/-!
# Continuing a stream

A container that can be opened can be continued, whoever wrote it, if its samples start where those
of a stream start that is written here. What it described is described anew, and the header goes
over the old one. After that the samples are those that were there with the new ones behind them, so
it does not matter over how many sessions they are spread.

## Main definitions

* `Ledger.ofSamples`: a ledger with some samples;
* `Writer.resume`, `Writer.resumeAll`: sessions that continue a stream.

## Main results

* `Writer.append_holds`: a stream is continued;
* `Writer.resume_eq`, `Writer.resumeAll_eq`: what one session leaves behind, and what many do;
* `Writer.append_run_close`: appending preserves and extends a stream.
-/

namespace Caf

/-! ## What has been opened -/

namespace Reader

variable {store opened : Store} {reader : Reader}

/-- The samples of a container that has been opened run to its end, and `reader` knows where they
start. -/
theorem region_of_ofStore (hread : store.Readable) (hopen : ofStore store = .ok reader opened) :
    reader.stream.start = some reader.region.offset ∧ reader.stream.length = reader.region.length ∧
      reader.region.offset + reader.region.length = store.bytes.size := by
  obtain ⟨l, rate, encoding, pace, hcontent, -, rfl, -⟩ := layout_of_ofStore hread hopen
  refine ⟨rfl, rfl, ?_⟩
  rw [← Store.length_content, hcontent, Layout.length_toBytes]
  rfl

/-- A stream that has been opened is described by a record that means the stream, so that `append`
can write a header for it. -/
theorem describes_of_ofStore (hread : store.Readable) (hopen : ofStore store = .ok reader opened) :
    reader.stream.describe = .ok reader.stream.description ∧
      reader.stream.description.Describes reader.stream.sampleRate reader.stream.encoding := by
  obtain ⟨l, rate, encoding, pace, -, hd, rfl, -⟩ := layout_of_ofStore hread hopen
  have hframe : (l.stream rate encoding).bytesPerFrame < 2 ^ 32 :=
    Description.frame_lt_of_encoding? hd.encoding
  exact ⟨Stream.describe_eq hframe,
    Stream.describes (Header.ne_zero_of_wholeRate? hd.rate) hd.channels hframe⟩

end Reader

/-! ## Ledgers of streams that are continued -/

namespace Ledger

/-- A ledger with `samples` whose end has not been said. -/
def ofSamples (samples : Bytes) : Ledger :=
  ⟨samples, none, nofun⟩

/-- As long as no end is said, all bytes are declared. -/
theorem declared_run_ofSamples (samples : Bytes) {calls : List Writer.Call}
    (h : ∀ c ∈ calls, c ≠ .endSamples) :
    ((ofSamples samples).run calls).2.declared =
      (samples ++ calls.flatMap Writer.Call.samples).length := by
  rw [declared, stop_run _ h, samples_run]
  rfl

end Ledger

namespace Writer

variable {store opened : Store} {reader : Reader} {writer : Writer} {capacity : Nat}
  {d : Description}

/-! ## Starting behind what is there -/

/-- To `settle` a writer that has just come to the end of a store covers the old header by a new
one. -/
theorem settle_at_end (hintact : writer.broken = false) (hunmarked : writer.samplesEnd = none)
    (hdescribe : writer.stream.describe = .ok d) (hstart : writer.stream.start = some headerSize)
    (hwritable : writer.store.Open) (hheader : headerSize ≤ writer.store.bytes.size)
    (hend : writer.store.cursor = writer.store.bytes.size) :
    ∃ writer', settle writer = .ok () writer' ∧
      writer'.Holds d writer.store (.ofSamples (writer.store.content.drop headerSize)) := by
  have hknown : writer.stream.start.getD headerSize = headerSize := by
    rw [hstart, Option.getD_some]
  obtain ⟨store, hsettle, hcontent, hcursor, halike⟩ :=
    settle_of_open hintact hdescribe hknown hwritable
  have hlength : headerSize + (writer.store.content.drop headerSize).length =
      writer.store.bytes.size := by
    rw [List.length_drop, Store.length_content, Nat.add_sub_cancel' hheader]
  have hoffset : writer.region.offset = headerSize := hknown
  have hstop : writer.measuredStop - writer.region.offset ≤
      (writer.store.content.drop headerSize).length := by
    have hle := writer.measuredStop_le
    rw [hoffset]
    omega
  refine ⟨_, hsettle, hdescribe, rfl, hstop, ⟨_, hoffset ▸ hstop, ?_⟩, ?_, ?_, hintact, halike⟩
  -- The new header is as long as the one that it goes over.
  · refine hcontent.trans ?_
    rw [Bytes.splice, List.take_zero, List.nil_append, length_headerBytes, Nat.zero_add]
    rfl
  · show store.cursor = _
    rw [hcursor, hend, Nat.max_eq_left hheader]
    exact hlength.symm
  · exact hunmarked

/-- A stream whose samples start where they do here, at `headerSize`, is continued behind its last
sample. -/
theorem append_holds (request : StreamRequest) (hread : store.Readable)
    (hwritable : store.Open) (hopen : Reader.ofStore store = .ok reader opened)
    (hoffset : reader.region.offset = headerSize) :
    ∃ writer, append request store = .ok writer writer.store ∧
      writer.Holds reader.stream.description store
        (.ofSamples (store.content.drop headerSize)) := by
  obtain ⟨hstart, hcount, hend⟩ := Reader.region_of_ofStore hread hopen
  obtain ⟨hdescribe, -⟩ := Reader.describes_of_ofStore hread hopen
  obtain ⟨l, rate, encoding, pace, -, -, -, hopened⟩ := Reader.layout_of_ofStore hread hopen
  obtain ⟨header, scan, hheader, hreader, hscan⟩ := Reader.ofStore_eq_ok_iff.1 hopen
  have hstream : header.stream = reader.stream := by rw [hreader]; rfl
  have hregion : header.stream.region = reader.region := by rw [hreader]
  rw [hoffset] at hend
  rw [← hstream, hoffset] at hstart
  rw [← hstream] at hdescribe
  rw [← hregion] at hoffset
  have hscanned : scan.store = store.movedTo l.start pace := hscan.symm.trans hopened
  -- The cursor goes to the end of the samples, which is the end of the store.
  have hstop : header.stream.region.stop = .ok store.bytes.size := by
    have hlt : headerSize + reader.region.length < Nat.pow 2 64 := by
      have hsize := hwritable.size_lt
      have hpow : Nat.pow 2 64 = 2 ^ 64 := rfl
      omega
    rw [Region.stop, hoffset, hregion, addWithin, if_pos hlt, hend]
  have hseek : Store.seekTo store.bytes.size scan.store =
      .ok () (store.movedTo store.bytes.size pace) := by
    rw [hscanned]
    exact Store.seekTo_eq hread.seek hread.size
  let blank := forStream (store.movedTo store.bytes.size pace) header.stream scan.journal
  have hintact : blank.broken = false := rfl
  have hblank : blank.store.Open :=
    { hwritable with accepting := hwritable.accepting.of_alike (.movedTo ..), cursor := hread.size }
  have hlong : headerSize ≤ blank.store.bytes.size := by
    show headerSize ≤ store.bytes.size
    omega
  obtain ⟨writer, hsettle, hholds⟩ :=
    settle_at_end hintact rfl hdescribe hstart hblank hlong rfl
  have hpos : 0 < headerSize := by decide
  obtain ⟨n, hn⟩ : ∃ n, store.bytes.size = n + 1 := Nat.exists_eq_add_one.2 (by omega)
  have hlength : Store.length store = .ok (n + 1) store := hn ▸ hread.length_eq
  have happend : append request store = .ok writer writer.store :=
    append_eq_ok_iff.2 (.inr ⟨n, store, header, scan, store.bytes.size, _, hlength, hheader,
      hoffset,
      hstop, hseek, hsettle, rfl⟩)
  refine ⟨writer, happend, ?_⟩
  rw [← hstream]
  exact hholds.of_alike (.movedTo ..)

/-! ## One session -/

/-- What a session leaves behind that writes `samples`: a store like the one before, with a header
for the stream that was there, the old samples, and the new ones behind them. -/
structure Extends (store : Store) (reader : Reader) (samples : Bytes) (final : Store) : Prop where
  /-- The header declares all of the samples. -/
  content : final.content = headerBytes reader.stream.description
    (Int64.ofNat (store.bytes.size - headerSize + samples.length)) ++
      (store.content.drop headerSize ++ samples)
  /-- The medium is the same. -/
  alike : store.Alike final
  /-- The store can be read. -/
  readable : final.Readable

/-- A stream that was continued, with any `calls` but those that say an end, is closed with all of
its samples. -/
theorem session_of_append (request : StreamRequest) {calls : List Call} (hread : store.Readable)
    (haccepting : store.Accepting capacity)
    (hroom : store.bytes.size + (calls.flatMap Call.samples).length ≤ capacity)
    (hopen : Reader.ofStore store = .ok reader opened) (hoffset : reader.region.offset = headerSize)
    (hcalls : ∀ c ∈ calls, c ≠ .endSamples) :
    ∃ writer answers writer', append request store = .ok writer writer.store ∧
      writer.store.cursor = store.bytes.size ∧ run calls writer = .ok answers writer' ∧
      writer'.close.1 = .ok () ∧
      Extends store reader (calls.flatMap Call.samples) writer'.close.2 := by
  obtain ⟨-, -, hend⟩ := Reader.region_of_ofStore hread hopen
  have hold : headerSize + (store.content.drop headerSize).length = store.bytes.size := by
    rw [List.length_drop, Store.length_content]
    omega
  have hwritable : store.Open := hread.opens haccepting (by omega) (by omega)
  obtain ⟨writer, happend, hholds⟩ := append_holds request hread hwritable hopen hoffset
  -- To the new session the old samples are samples it has already taken.
  let ledger := Ledger.ofSamples (store.content.drop headerSize)
  have hsamples : (ledger.run calls).2.samples =
      store.content.drop headerSize ++ calls.flatMap Call.samples := ledger.samples_run calls
  have hfits : headerSize + (ledger.run calls).2.samples.length ≤ capacity := by
    rw [hsamples, List.length_append]
    omega
  obtain ⟨writer', hrun, hholds'⟩ := holds_run hholds haccepting calls hfits
  obtain ⟨closed, hclose, hclosed, hcontent⟩ := close_of_holds hholds' haccepting hfits
  refine ⟨writer, _, writer', happend, ?_, hrun, ?_, ?_⟩
  · rw [hholds.cursor, ← hold]
    rfl
  · rw [hclose]
  · rw [hclose]
    refine ⟨?_, hclosed.alike, hclosed.readable haccepting hfits hread.bad⟩
    have hdeclared : (ledger.run calls).2.declared =
        store.bytes.size - headerSize + (calls.flatMap Call.samples).length := by
      rw [Ledger.declared_run_ofSamples _ hcalls, List.length_append]
      omega
    rw [hcontent, hsamples, hdeclared]

/-- What a session leaves behind is opened as the stream that was there, with all of its samples. -/
theorem Extends.opens {samples : Bytes} {final : Store} (h : Extends store reader samples final)
    (hread : store.Readable) (hopen : Reader.ofStore store = .ok reader opened) :
    ∃ reader' pace, Reader.ofStore final = .ok reader' (final.movedTo headerSize pace) ∧
      reader'.stream = { reader.stream with
        start := some headerSize
        length := store.bytes.size - headerSize + samples.length } ∧
      reader'.region = ⟨headerSize, store.bytes.size - headerSize + samples.length⟩ := by
  obtain ⟨-, hdescribes⟩ := Reader.describes_of_ofStore hread hopen
  obtain ⟨reader', pace, hagain, hstream, hregion, -⟩ :=
    Reader.ofStore_of_stream h.readable hdescribes h.content
  have hlength : (store.content.drop headerSize ++ samples).length =
      store.bytes.size - headerSize + samples.length := by
    rw [List.length_append, List.length_drop, Store.length_content]
  rw [hlength] at hstream hregion
  exact ⟨reader', pace, hagain, hstream, hregion⟩

/-- A session that continues a stream: samples may be written and headers settled by `calls`, and in
the end the writer is closed. -/
def resume (request : StreamRequest) (calls : List Call) : CafM Unit := fun store =>
  match append request store with
  | .error e store => .error e store
  | .ok writer _ =>
    match run calls writer with
    | .error e writer => .error e writer.release
    | .ok _ writer =>
      match writer.close with
      | (.error e, store) => .error e store
      | (.ok (), store) => .ok () store

/-- Sessions one after the other. -/
def resumeAll : List (StreamRequest × List Call) → CafM Unit
  | [] => pure ()
  | (request, calls) :: sessions => do
    resume request calls
    resumeAll sessions

theorem resume_eq (request : StreamRequest) {calls : List Call} (hread : store.Readable)
    (haccepting : store.Accepting capacity)
    (hroom : store.bytes.size + (calls.flatMap Call.samples).length ≤ capacity)
    (hopen : Reader.ofStore store = .ok reader opened) (hoffset : reader.region.offset = headerSize)
    (hcalls : ∀ c ∈ calls, c ≠ .endSamples) :
    ∃ final, resume request calls store = .ok () final ∧
      Extends store reader (calls.flatMap Call.samples) final := by
  obtain ⟨writer, answers, writer', happend, -, hrun, hclose, hextends⟩ :=
    session_of_append request hread haccepting hroom hopen hoffset hcalls
  refine ⟨writer'.close.2, ?_, hextends⟩
  have hpair : writer'.close = (.ok (), writer'.close.2) := by
    rw [← hclose]
  rw [resume, happend]
  simp only [hrun]
  rw [hpair]

/-! ## Many sessions -/

/-- Samples that are written as `first` in one session and as `rest` in more are written as in one.
-/
theorem Extends.trans {first rest : Bytes} {middle final : Store} {reader' : Reader}
    (h : Extends store reader first middle) (h' : Extends middle reader' rest final)
    (hstream : reader'.stream.description = reader.stream.description) :
    Extends store reader (first ++ rest) final := by
  have hmiddle : middle.bytes.size = headerSize + (store.content.drop headerSize ++ first).length :=
    Store.size_of_header h.content
  refine ⟨?_, h.alike.trans h'.alike, h'.readable⟩
  rw [h'.content, hstream, hmiddle, h.content, List.drop_left' (length_headerBytes _ _)]
  simp only [List.length_append, List.length_drop, Store.length_content, Nat.add_sub_cancel_left,
    List.append_assoc, Nat.add_assoc]

/-- What was written in `sessions` is what one session would have written. -/
theorem resumeAll_eq {sessions : List (StreamRequest × List Call)} (hne : sessions ≠ [])
    (hread : store.Readable) (haccepting : store.Accepting capacity)
    (hroom : store.bytes.size + ((sessions.flatMap (·.2)).flatMap Call.samples).length ≤ capacity)
    (hopen : Reader.ofStore store = .ok reader opened) (hoffset : reader.region.offset = headerSize)
    (hcalls : ∀ c ∈ sessions.flatMap (·.2), c ≠ .endSamples) :
    ∃ final, resumeAll sessions store = .ok () final ∧
      Extends store reader ((sessions.flatMap (·.2)).flatMap Call.samples) final := by
  induction sessions generalizing store reader opened with
  | nil => exact absurd rfl hne
  | cons session sessions ih =>
    obtain ⟨request, calls⟩ := session
    simp only [List.flatMap_cons, List.flatMap_append, List.length_append, List.mem_append]
      at hroom hcalls ⊢
    obtain ⟨middle, hresume, hfirst⟩ := resume_eq request hread haccepting (by omega) hopen hoffset
      fun c hc => hcalls c (.inl hc)
    by_cases hlast : sessions = []
    case pos =>
      subst hlast
      refine ⟨middle, (Run.bind_of_ok hresume).trans rfl, ?_⟩
      rw [List.flatMap_nil, List.flatMap_nil, List.append_nil]
      exact hfirst
    -- What the first session leaves behind is continued like any other stream.
    obtain ⟨reader', pace, hagain, hstream, hregion⟩ := hfirst.opens hread hopen
    have hmiddle := Store.size_of_header hfirst.content
    have hend := (Reader.region_of_ofStore hread hopen).2.2
    simp only [List.length_append, List.length_drop, Store.length_content] at hmiddle
    have hoffset' : reader'.region.offset = headerSize := by rw [hregion]
    have hdescription : reader'.stream.description = reader.stream.description := by
      rw [hstream]
      rfl
    obtain ⟨final, hresumeAll, hrest⟩ := ih hlast hfirst.readable (haccepting.of_alike hfirst.alike)
      (by omega) hagain hoffset' fun c hc => hcalls c (.inr hc)
    exact ⟨final, (Run.bind_of_ok hresume).trans hresumeAll, hfirst.trans hrest hdescription⟩

/-- Whoever wrote the container in `store`, and whatever `request` asks for, a stream whose samples
start where they do here is continued at its end. After a session with `calls` the store has a
header for the stream that was there, its samples as they were, and the new ones, and it is opened
as the same stream. It does not matter over how many sessions the new samples are spread. -/
theorem append_run_close (request : StreamRequest) {calls : List Call} (hread : store.Readable)
    (haccepting : store.Accepting (store.bytes.size + (calls.flatMap Call.samples).length))
    (hopen : Reader.ofStore store = .ok reader opened) (hoffset : reader.region.offset = headerSize)
    (hcalls : ∀ c ∈ calls, c ≠ .endSamples) :
    ∃ writer answers writer' reader' reopened, append request store = .ok writer writer.store ∧
      writer.store.cursor = store.bytes.size ∧ run calls writer = .ok answers writer' ∧
      writer'.close.1 = .ok () ∧
      writer'.close.2.content = headerBytes reader.stream.description
        (Int64.ofNat (store.bytes.size - headerSize + (calls.flatMap Call.samples).length)) ++
          (store.content.drop headerSize ++ calls.flatMap Call.samples) ∧
      Reader.ofStore writer'.close.2 = .ok reader' reopened ∧
      reader'.stream.sampleRate = reader.stream.sampleRate ∧
      reader'.stream.channels = reader.stream.channels ∧
      reader'.stream.encoding = reader.stream.encoding ∧
      reader'.stream.order = reader.stream.order ∧
      reader'.region =
        ⟨headerSize, store.bytes.size - headerSize + (calls.flatMap Call.samples).length⟩ ∧
      ∀ sessions : List (StreamRequest × List Call), sessions ≠ [] →
        sessions.flatMap (·.2) = calls →
        ∃ final, resumeAll sessions store = .ok () final ∧
          final.content = writer'.close.2.content := by
  obtain ⟨writer, answers, writer', happend, hcursor, hrun, hclose, hextends⟩ :=
    session_of_append request hread haccepting (Nat.le_refl _) hopen hoffset hcalls
  obtain ⟨reader', pace, hagain, hstream, hregion⟩ := hextends.opens hread hopen
  refine ⟨writer, answers, writer', reader', _, happend, hcursor, hrun, hclose, hextends.content,
    hagain, ?_, ?_, ?_, ?_, hregion, ?_⟩
  · rw [hstream]
  · rw [hstream]
  · rw [hstream]
  · rw [hstream]
  · rintro sessions hne rfl
    obtain ⟨final, hresume, hfinal⟩ :=
      resumeAll_eq hne hread haccepting (Nat.le_refl _) hopen hoffset hcalls
    exact ⟨final, hresume, hfinal.content.trans hextends.content.symm⟩

/-- Somebody else's container, with a rate that is no whole number, flags of its own, seven frames
in a packet and a wrong declared size, is continued in two sessions. -/
theorem append_run_close_foreign :
    ∃ (l : Layout) (store final : Store), store.content = l.toBytes ∧ l.body.declared = -1 ∧
      l.description.formatFlags = 4 ∧ l.description.framesPerPacket = 7 ∧
      resumeAll [(.mono .alaw 0, [.write ⟨#[1]⟩, .eager true]),
        (.mono .pcm24 8000, [.writeHeader, .write ⟨#[2]⟩])] store = .ok () final ∧
      final.content = headerBytes (StreamRequest.stream ⟨.pcm16, 1, 44101, .big⟩).description 5 ++
        [7, 8, 9, 1, 2] := by
  let description : Description :=
    ⟨⟨0x40E5889000000000⟩, Description.lpcm, 4, 2, 7, 1, 16⟩
  let l : Layout := ⟨1, 0, description, [], ⟨[], -1, 0, [7, 8, 9], by simp⟩, by decide⟩
  let store : Store := { bytes := ⟨l.toBytes.toArray⟩ }
  have hlength : store.bytes.size = 71 := l.length_toBytes
  have hread : store.Readable :=
    ⟨rfl, rfl, rfl, Nat.zero_le _, by rw [hlength]; decide⟩
  have haccepting : store.Accepting 73 := .of_memory _ (by decide)
  have hdescribes : l.description.Describes 44101 .pcm16 := ⟨by decide, by decide, by decide⟩
  obtain ⟨pace, hopen⟩ := Reader.ofStore_of_describes hread rfl hdescribes
  have hcalls : ∀ c ∈ [Call.write ⟨#[1]⟩, .eager true, .writeHeader, .write ⟨#[2]⟩],
      c ≠ .endSamples := by simp
  obtain ⟨writer, answers, writer', reader', reopened, -, -, -, -, hcontent, -, -, -, -, -, -,
      hall⟩ :=
    append_run_close (.mono .pcm16 44100) hread (hlength ▸ haccepting) hopen rfl hcalls
  obtain ⟨final, hresume, hfinal⟩ := hall [(.mono .alaw 0, [.write ⟨#[1]⟩, .eager true]),
    (.mono .pcm24 8000, [.writeHeader, .write ⟨#[2]⟩])] (by simp) rfl
  have hold : store.content.drop headerSize = [7, 8, 9] := l.drop_start
  have hstream : (l.reader 44101 .pcm16).stream.description =
      (StreamRequest.stream ⟨.pcm16, 1, 44101, .big⟩).description := by
    have horder : l.description.byteOrder = .big := by decide
    show (Stream.description ⟨44101, 1, .pcm16, l.description.byteOrder, _, _⟩) = _
    rw [horder]
    rfl
  refine ⟨l, store, final, rfl, rfl, rfl, rfl, hresume, ?_⟩
  rw [hfinal, hcontent, hlength, hold, hstream]
  rfl

end Writer

end Caf
