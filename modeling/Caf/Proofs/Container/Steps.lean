import Caf.Container.Header
import Caf.Proofs.Run.Outcome

/-!
# The steps of reading a header

Reading a header is put together from a few operations on the store and from entries in the journal.
What holds of these, and of a sequence when it holds of its parts, holds of each step of reading and
of all of them together. So `readDescription`, `findData` and the others are taken apart here, once
for every property `Q` of this kind: what a run leaves alone, what it records, and how it meets
damage. The property is one of an operation and of the state that it starts from, and for a scan it
comes with a property of the operations on its store.

## Main definitions

* `Store.Steps`: a property of what is done with the store;
* `Scan.Entry`: what is recorded while a header is read;
* `Scan.Steps`: a property of what is done to read a header.

## Main results

* `Header.findData_eq_bind`, `Header.streamOf_eq`: the search and the judgement as sequences;
* `Scan.Steps.readParts`: what the steps have, reading a header has.
-/

namespace Caf

/-! ## The loop and the judgement as sequences -/

namespace Header

/-- Finding the samples, chunk by chunk. -/
theorem findData_eq (fileLength : Nat) (scan : Scan) :
    findData fileLength scan =
      match nextChunk fileLength scan with
      | .error e scan => .error e scan
      | .ok (header, position) scan =>
        if header.kind = .data then enterData header position scan
        else
          match passOver header position scan with
          | .error e scan => .error e scan
          | .ok () scan => findData fileLength scan := by
  rw [findData]
  split
  case h_1 hnext => rw [hnext]
  case h_2 hnext =>
    rw [hnext]
    split
    case isTrue hkind => exact (if_pos hkind).symm
    case isFalse hkind =>
      simp only [if_neg hkind]
      split
      case h_1 hpass => rw [hpass]
      case h_2 hpass => rw [hpass]

/-- Finding the samples is reading the header of a chunk, and then entering the chunk or passing
over it. -/
theorem findData_eq_bind (fileLength : Nat) :
    (findData fileLength : ScanM Nat) = nextChunk fileLength >>= fun next =>
      if next.1.kind = .data then enterData next.1 next.2
      else passOver next.1 next.2 >>= fun _ => (findData fileLength : ScanM Nat) := by
  funext scan
  rw [findData_eq]
  cases hnext : nextChunk fileLength scan with
  | error e left => rw [Run.bind_of_error hnext]
  | ok next scan' =>
    rw [Run.bind_of_ok hnext]
    by_cases hkind : next.1.kind = .data
    case pos => simp only [if_pos hkind]
    case neg =>
      simp only [if_neg hkind]
      show _ = EStateM.bind _ _ _
      simp only [EStateM.bind]
      cases passOver next.1 next.2 scan' <;> rfl

/-- The data chunk is entered at `start`, where its edit count is there. -/
theorem enterData_ok {header : ChunkHeader} {position start : Nat} {scan scan' : Scan}
    (h : enterData header position scan = .ok start scan') :
    start = scan'.store.cursor ∧ start ≤ scan.store.bytes.size := by
  obtain ⟨_, scan₁, hnote, h⟩ := Run.bind_eq_ok_iff.1 h
  obtain ⟨count, scan₂, hcount, h⟩ := Run.bind_eq_ok_iff.1 h
  obtain ⟨_, scan₃, hnoted, h⟩ := Run.bind_eq_ok_iff.1 h
  cases hnote
  cases hnoted
  obtain ⟨hbytes, hcursor, hthere⟩ := Store.record_ok (Scan.onStore_ok hcount).1
  obtain ⟨rfl, hleft⟩ := Store.position_ok (Store.explaining_ok (Scan.onStore_ok h).1)
  rw [hleft]
  refine ⟨rfl, ?_⟩
  simp only [editCountSize] at hcursor hthere
  show scan₂.store.cursor ≤ _
  omega

/-- The samples that are found start within the bytes, at `start`, and the cursor stands there. -/
theorem findData_ok {fileLength start : Nat} {scan scan' : Scan}
    (h : findData fileLength scan = .ok start scan') :
    start = scan'.store.cursor ∧ start ≤ scan.store.bytes.size := by
  fun_induction findData fileLength scan with
  | case1 => cases h
  | case2 scan header position moved hnext hkind =>
    rw [← (nextChunk_ok hnext).1]
    exact enterData_ok h
  | case3 => cases h
  | case4 scan header position moved hnext hkind passed hpass ih =>
    rw [← (nextChunk_ok hnext).1, ← (passOver_ok hpass).1]
    exact ih h

/-- A stream is made of a description `d` with a rate, with channels and with an encoding. The
judgement on the encoding is the only entry in the journal. -/
theorem streamOf_eq (d : Description) (start fileLength : Nat) :
    streamOf d start fileLength =
      (match wholeRate? d.sampleRate with
      | none => throw (.malformed (.invalidSampleRate d.sampleRate) none)
      | some sampleRate =>
        if d.channelsPerFrame = 0 then throw (.malformed .zeroChannels none)
        else Scan.note (fun journal => (journal.judge d).2) >>= fun _ =>
          match d.encoding? with
          | none => throw (.unsupported (.description d.formatId d.formatFlags d.bitsPerChannel
              d.bytesPerPacket))
          | some encoding => pure {
              sampleRate
              channels := d.channelsPerFrame
              encoding
              order := d.byteOrder
              start := some start
              length := fileLength - start } : ScanM Stream) := by
  funext scan
  rw [streamOf]
  cases wholeRate? d.sampleRate with
  | none => rfl
  | some sampleRate =>
    by_cases hchannels : d.channelsPerFrame = 0
    case pos =>
      simp only [if_pos hchannels]
      rfl
    case neg =>
      simp only [if_neg hchannels]
      have hget : (get : ScanM Scan) scan = .ok scan scan := rfl
      have hnote : Scan.note (fun journal => (journal.judge d).2) scan =
          .ok () { scan with journal := (scan.journal.judge d).2 } := rfl
      rw [Run.bind_of_ok hget, Run.bind_of_ok hnote, ← Journal.judge_fst scan.journal d]
      cases (scan.journal.judge d).1 <;> rfl

end Header

/-! ## Steps on the store -/

/-- A property `Q` that asking for the cursor, moving it on and reading a record have, and that
sequences have from their parts. -/
structure Store.Steps (Q : ∀ ⦃α : Type⦄, CafM α → Store → Prop) : Prop extends Run.Closed Q where
  /-- Asking for the cursor has it. -/
  position : ∀ store, Q (run Store.position) store
  /-- Moving the cursor on has it. -/
  seekBy : ∀ distance store, Q (run (Store.seekBy distance)) store
  /-- Reading a record has it. -/
  record : ∀ {α : Type} (part : HeaderPart) (offset size : Nat)
    (read? : Bytes → Option (α × Bytes)) (store : Store), Q (record part offset size read?) store

/-- Passing over a payload has the property `Q` that its steps have. -/
theorem Store.Steps.passPayload {Q : ∀ ⦃α : Type⦄, CafM α → Store → Prop} (hQ : Store.Steps Q)
    (header : ChunkHeader) (offset : Nat) (store : Store) :
    Q (Header.passPayload header offset) store := by
  rw [Header.passPayload]
  exact hQ.ite (fun _ => hQ.throw _ _) fun _ => hQ.seekBy _ _

/-- The judgement on the marker has the property `Q` that values and failures have. -/
theorem Run.Closed.requireMarker {σ : Type} {Q : ∀ ⦃α : Type⦄, EStateM Error σ α → σ → Prop}
    (hQ : Run.Closed Q) (header : FileHeader) (s : σ) : Q (Header.requireMarker header) s := by
  rw [Header.requireMarker]
  exact hQ.ite (fun _ => hQ.pure () s) fun _ => hQ.throw _ s

/-! ## Steps of a scan -/

namespace Scan

/-- The entries that are recorded while a header is read. -/
inductive Entry : (Journal → Journal) → Prop where
  /-- The file header. -/
  | fileHeader (header : FileHeader) : Entry (·.noteFileHeader header)
  /-- A description chunk that declares too little. -/
  | smallDescription : Entry (·.warn
      ("Chunk size too small. Should be > " ++ toString descriptionSize ++ " bytes."))
  /-- The description. -/
  | description {header : ChunkHeader} (hkind : header.kind = .description) (d : Description) :
    Entry (·.noteDescription header d)
  /-- The header of the data chunk. -/
  | data {header : ChunkHeader} (hkind : header.kind = .data) : Entry (·.noteChunk header)
  /-- The edit count of the data chunk. -/
  | editCount (count : UInt32) : Entry (·.noteEditCount count)
  /-- A chunk that is passed over. -/
  | passedChunk (header : ChunkHeader) : Entry (·.notePassedChunk header)
  /-- The missing data chunk. -/
  | noData : Entry (·.warn "Error, could not find 'data' chunk.")
  /-- The end of the chunks. -/
  | stop : Entry (·.remark "End")
  /-- The judgement on the description. -/
  | judgement (d : Description) : Entry fun journal => (journal.judge d).2

/-- A property `Q` that the operations on the store have which have `Q₀`, that the entries in the
journal have, and that sequences have from their parts. -/
structure Steps (Q₀ : ∀ ⦃α : Type⦄, CafM α → Store → Prop)
    (Q : ∀ ⦃α : Type⦄, ScanM α → Scan → Prop) : Prop extends Run.Closed Q where
  /-- What is done with the store has its own property. -/
  store : Store.Steps Q₀
  /-- What is done with the store has the property of scans. -/
  onStore : ∀ {α : Type} {operation : CafM α} {scan : Scan}, Q₀ operation scan.store →
    Q (Scan.onStore operation) scan
  /-- Entries in the journal have it. -/
  note : ∀ {entry : Journal → Journal}, Entry entry → ∀ scan, Q (Scan.note entry) scan

namespace Steps

variable {Q₀ : ∀ ⦃α : Type⦄, CafM α → Store → Prop} {Q : ∀ ⦃α : Type⦄, ScanM α → Scan → Prop}
  (hQ : Steps Q₀ Q)
include hQ

theorem position (scan : Scan) : Q (Scan.onStore (Store.run Store.position)) scan :=
  hQ.onStore (hQ.store.position _)

theorem record {α : Type} (part : HeaderPart) (offset size : Nat)
    (read? : Bytes → Option (α × Bytes)) (scan : Scan) :
    Q (Scan.onStore (Store.record part offset size read?)) scan :=
  hQ.onStore (hQ.store.record ..)

theorem readMarked (scan : Scan) : Q Header.readMarked scan := by
  refine hQ.bind (hQ.record ..) fun header _ _ => ?_
  refine hQ.bind (hQ.note (.fileHeader header) _) fun _ _ _ => ?_
  exact hQ.bind (hQ.requireMarker ..) fun _ _ _ => hQ.pure ..

theorem readDescription (scan : Scan) : Q Header.readDescription scan := by
  refine hQ.bind (hQ.position _) fun position _ _ => ?_
  refine hQ.bind (hQ.record ..) fun header _ _ => ?_
  refine hQ.ite (fun _ => hQ.throw_bind ..) fun hkind => hQ.ite (fun _ => ?_) fun _ => ?_
  · exact hQ.bind (hQ.note .smallDescription _) fun _ _ _ => hQ.throw_bind ..
  refine hQ.bind (hQ.record ..) fun d _ _ => ?_
  refine hQ.bind (hQ.note (.description (Decidable.not_not.1 hkind) d) _) fun _ _ _ => ?_
  refine hQ.ite (fun _ => ?_) fun _ => hQ.pure ..
  exact hQ.bind (hQ.onStore (hQ.store.seekBy ..)) fun _ _ _ => hQ.pure ..

theorem nextChunk (fileLength : Nat) (scan : Scan) : Q (Header.nextChunk fileLength) scan := by
  refine hQ.bind (hQ.position _) fun position _ _ => hQ.ite (fun _ => ?_) fun _ => ?_
  · exact hQ.bind (hQ.note .noData _) fun _ _ _ => hQ.throw_bind ..
  · exact hQ.bind (hQ.record ..) fun _ _ _ => hQ.pure ..

theorem enterData {header : ChunkHeader} (hkind : header.kind = .data) (position : Nat)
    (scan : Scan) : Q (Header.enterData header position) scan := by
  refine hQ.bind (hQ.note (.data hkind) _) fun _ _ _ => ?_
  refine hQ.bind (hQ.record ..) fun count _ _ => ?_
  exact hQ.bind (hQ.note (.editCount count) _) fun _ _ _ => hQ.position _

theorem passOver (header : ChunkHeader) (position : Nat) (scan : Scan) :
    Q (Header.passOver header position) scan :=
  hQ.bind (hQ.note (.passedChunk header) _) fun _ _ _ => hQ.onStore (hQ.store.passPayload ..)

theorem findData (fileLength : Nat) (scan : Scan) :
    Q (Header.findData fileLength : ScanM Nat) scan := by
  -- Every chunk that is passed over takes the cursor nearer to the end, or beyond it.
  induction hleft : scan.store.bytes.size - scan.store.cursor using Nat.strongRecOn
    generalizing scan with
  | ind left ih =>
    rw [Header.findData_eq_bind]
    refine hQ.bind (hQ.nextChunk ..) fun next scan' hnext => ?_
    refine hQ.ite (fun hkind => hQ.enterData hkind ..) fun _ => ?_
    refine hQ.bind (hQ.passOver ..) fun _ scan'' hpass => ih _ ?_ scan'' rfl
    obtain ⟨hbytes, hcursor, hfits⟩ := Header.nextChunk_ok hnext
    obtain ⟨hbytes', hcursor'⟩ := Header.passOver_ok hpass
    rw [hbytes', hbytes]
    simp only [chunkHeaderSize] at hcursor hfits
    omega

theorem readChunks (fileLength : Nat) (scan : Scan) : Q (Header.readChunks fileLength) scan := by
  refine hQ.bind (hQ.readDescription _) fun d _ _ => ?_
  refine hQ.bind (hQ.findData fileLength _) fun start _ _ => ?_
  exact hQ.bind (hQ.note .stop _) fun _ _ _ => hQ.pure ..

theorem streamOf (d : Description) (start fileLength : Nat) (scan : Scan) :
    Q (Header.streamOf d start fileLength) scan := by
  rw [Header.streamOf_eq]
  split
  · exact hQ.throw ..
  refine hQ.ite (fun _ => hQ.throw ..) fun _ => ?_
  refine hQ.bind (hQ.note (.judgement d) _) fun _ _ _ => ?_
  split
  · exact hQ.throw ..
  · exact hQ.pure ..

/-- Reading a header has the property `Q` that its steps have. -/
theorem readParts (fileLength : Nat) (scan : Scan) : Q (Header.readParts fileLength) scan := by
  refine hQ.bind (hQ.readMarked _) fun fileHeader _ _ => ?_
  refine hQ.bind (hQ.readChunks ..) fun found _ _ => ?_
  exact hQ.bind (hQ.streamOf ..) fun _ _ _ => hQ.pure ..

end Steps

end Scan

end Caf
