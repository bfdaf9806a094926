import Caf.Container.ChunkList
import Caf.Proofs.Container.Ledger
import Caf.Proofs.Container.Opening

/-!
# Listing walks by declared sizes

The listing goes from chunk to chunk by the sizes that the chunks declare. Where chunks declare the
length of their payloads it finds all of them. The payload of the data chunk has the edit count in
front of the samples, and the header of a writer declares the samples alone, so behind the samples
of a writer the walk goes on four bytes too early.

## Main definitions

* `ChunkList.prepend`: a listing with one more entry in front;
* `Chunk.entries`: what a listing of some chunks has to say.

## Main results

* `ChunkList.walk_eq`, `ChunkList.walk_eq_bind`: one step of a walk;
* `ChunkList.walk_of_chunks`, `ChunkList.read_of_chunks`: chunks that declare their length are
  listed;
* `ChunkList.read_of_header`: the listing of a store with a header that is written here;
* `ChunkList.read_of_session`: what follows the samples of a session is not found.
-/

namespace Caf

variable {store : Store}

namespace ChunkList

/-- A listing with `entry` in front. -/
def prepend (entry : Entry) :
    EStateM.Result Error Store (List Entry) → EStateM.Result Error Store (List Entry)
  | .ok entries store => .ok (entry :: entries) store
  | .error e store => .error e store

/-- A listing with `entry` in front has it in front. -/
theorem prepend_eq_ok_iff {entry : Entry} {result : EStateM.Result Error Store (List Entry)}
    {entries : List Entry} {store' : Store} :
    prepend entry result = .ok entries store' ↔
      ∃ rest, result = .ok rest store' ∧ entries = entry :: rest := by
  cases result with
  | ok rest store'' =>
    constructor
    · rintro ⟨rfl, rfl⟩
      exact ⟨rest, rfl, rfl⟩
    · rintro ⟨_, ⟨rfl, rfl⟩, rfl⟩
      rfl
  | error e store'' => simp [prepend]

/-! ## Steps of a walk -/

/-- Walking over the chunks, one by one. -/
theorem walk_eq (fileLength offset : Nat) (store : Store) :
    walk fileLength offset store =
      match fits fileLength offset with
      | .error e => .error e store
      | .ok false => .ok [] store
      | .ok true =>
        match readEntry offset store with
        | .error e store => .error e store
        | .ok entry store =>
          if entry.isOpenEnded then .ok [entry] store
          else
            match Header.passPayload ⟨entry.kind, entry.size⟩ offset store with
            | .error e store => .error e store
            | .ok () store =>
              match nextOffset offset entry.size with
              | .error e => .error e store
              | .ok next => prepend entry (walk fileLength next store) := by
  rw [walk]
  split
  case h_1 hfits => rw [hfits]
  case h_2 hfits => rw [hfits]
  case h_3 hfits =>
    rw [hfits]
    cases readEntry offset store with
    | error e store => rfl
    | ok entry store =>
      by_cases hopen : entry.isOpenEnded
      case pos => simp only [if_pos hopen]
      case neg =>
        simp only [if_neg hopen]
        cases Header.passPayload ⟨entry.kind, entry.size⟩ offset store with
        | error e store => rfl
        | ok done store =>
          simp only
          split
          case h_1 hnext => rw [hnext]
          case h_2 next hnext =>
            rw [hnext]
            simp only
            cases walk fileLength next store with
            | error e store => rfl
            | ok entries store => rfl

/-- Walking over the chunks is reading the header of one, passing over it, and walking on, as far as
headers fit. -/
theorem walk_eq_bind (fileLength offset : Nat) :
    (walk fileLength offset : CafM (List Entry)) =
      (match fits fileLength offset with
      | .error e => throw e
      | .ok false => pure []
      | .ok true => readEntry offset >>= fun entry =>
        if entry.isOpenEnded then pure [entry]
        else Header.passPayload ⟨entry.kind, entry.size⟩ offset >>= fun _ =>
          match nextOffset offset entry.size with
          | .error e => throw e
          | .ok next => (walk fileLength next : CafM (List Entry)) >>= fun entries =>
            pure (entry :: entries) : CafM (List Entry)) := by
  funext store
  rw [walk_eq]
  rcases fits fileLength offset with e | fitting
  · rfl
  cases fitting with
  | false => rfl
  | true =>
    simp only
    cases hentry : readEntry offset store with
    | error e left => exact (Run.bind_of_error hentry).symm
    | ok entry store₁ =>
      rw [Run.bind_of_ok hentry]
      by_cases hopen : entry.isOpenEnded
      case pos =>
        simp only [if_pos hopen]
        rfl
      case neg =>
        simp only [if_neg hopen]
        cases hpass : Header.passPayload ⟨entry.kind, entry.size⟩ offset store₁ with
        | error e left => exact (Run.bind_of_error hpass).symm
        | ok passed store₂ =>
          rw [Run.bind_of_ok hpass]
          cases passed
          cases nextOffset offset entry.size with
          | error e => rfl
          | ok next =>
            show _ = EStateM.bind _ _ _
            simp only [EStateM.bind]
            cases walk fileLength next store₂ <;> rfl

/-- Whether a chunk header fits is a matter of `fileLength`, where the offset is in range. -/
theorem fits_eq (fileLength : Nat) {offset : Nat} (hsmall : offset + chunkHeaderSize < 2 ^ 64) :
    fits fileLength offset = .ok (decide (offset + chunkHeaderSize ≤ fileLength)) := by
  have hadd : addWithin 64 offset chunkHeaderSize = .ok (offset + chunkHeaderSize) :=
    if_pos hsmall
  rw [fits, hadd]

/-- The chunk behind a chunk of `size` bytes follows its payload, where the offset is in range. -/
theorem nextOffset_eq {offset : Nat} {size : Int64}
    (hsmall : offset + (chunkHeaderSize + size.toInt.toNat) < 2 ^ 64) :
    nextOffset offset size = .ok (offset + (chunkHeaderSize + size.toInt.toNat)) := by
  have hadd : addWithin 64 offset (chunkHeaderSize + size.toInt.toNat) =
      .ok (offset + (chunkHeaderSize + size.toInt.toNat)) := if_pos hsmall
  rw [nextOffset, hadd]

/-- A listing ends where no chunk header fits at `offset`. -/
theorem walk_of_end {fileLength offset : Nat} (store : Store)
    (hend : fileLength < offset + chunkHeaderSize) (hsmall : offset + chunkHeaderSize < 2 ^ 64) :
    walk fileLength offset store = .ok [] store := by
  rw [walk_eq, fits_eq fileLength hsmall, decide_eq_false (Nat.not_le.2 hend)]

/-- A chunk header at the cursor gives an entry with the offset of the cursor. -/
theorem readEntry_eq (hread : store.Readable) {code : FourCC} {size : Int64} {rest : Bytes}
    (hcontent : store.content.drop store.cursor =
      (ChunkHeader.mk (.ofCode code) size).toBytes ++ rest) :
    ∃ pace, readEntry store.cursor store =
      .ok ⟨.ofCode code, store.cursor, size⟩
        (store.movedTo (store.cursor + chunkHeaderSize) pace) := by
  obtain ⟨pace, hheader⟩ := Header.record_chunkHeader .chunkHeader store.cursor hread.bad hcontent
  exact ⟨pace, Run.bind_of_ok hheader⟩

/-- Whatever a chunk header says, its `entry` has the offset of the header. -/
theorem readEntry_offset {offset : Nat} {entry : Entry} {store' : Store}
    (h : readEntry offset store = .ok entry store') : entry.offset = offset := by
  obtain ⟨header, store'', -, h⟩ := Run.bind_eq_ok_iff.1 h
  obtain ⟨rfl, -⟩ := Run.pure_eq_ok_iff.1 h
  rfl

/-- A chunk header at the cursor whose size is not negative is the next entry, and the walk goes on
behind what it declares. -/
theorem walk_of_entry (hread : store.Readable) {code : FourCC} {size : Int64} {length next : Nat}
    {rest : Bytes}
    (hcontent : store.content.drop store.cursor =
      (ChunkHeader.mk (.ofCode code) size).toBytes ++ rest)
    (hlength : size.toInt = length) (hnext : store.cursor + (chunkHeaderSize + length) = next)
    (hreach : next ≤ store.medium.reach) (hsmall : next < 2 ^ 64) :
    ∃ pace, walk store.bytes.size store.cursor store =
      prepend ⟨.ofCode code, store.cursor, size⟩
        (walk store.bytes.size next (store.movedTo next pace)) := by
  subst hnext
  have hfits : store.cursor + chunkHeaderSize ≤ store.bytes.size := by
    have := Store.add_length_le_size hcontent (by rw [ChunkHeader.length_toBytes]; decide)
    rwa [ChunkHeader.length_toBytes] at this
  have hnat : size.toInt.toNat = length := by
    rw [hlength, Int.toNat_natCast]
  have hneg : ¬ size < 0 := by
    rw [Int64.lt_iff_toInt_lt, hlength]
    exact Int.not_lt.2 (Int.natCast_nonneg length)
  -- Only the size -1 leaves a chunk open, and this one is a length.
  have hclosed : (Entry.mk (.ofCode code) store.cursor size).isOpenEnded = false := by
    have hne : size ≠ -1 := fun h => hneg (h ▸ by decide)
    simp only [Entry.isOpenEnded, beq_false_of_ne hne, Bool.and_false]
  obtain ⟨pace, hentry⟩ := readEntry_eq hread hcontent
  have hpass : Header.passPayload ⟨.ofCode code, size⟩ store.cursor
      (store.movedTo (store.cursor + chunkHeaderSize) pace) =
      .ok () (store.movedTo (store.cursor + (chunkHeaderSize + length)) pace) := by
    rw [Header.passPayload, if_neg hneg, ← Nat.add_assoc, hnat]
    exact Store.run_of_ok (Store.seekBy_eq hread.seek (by rwa [← Nat.add_assoc] at hreach))
  have hnext : nextOffset store.cursor size = .ok (store.cursor + (chunkHeaderSize + length)) := by
    rw [nextOffset_eq (by rw [hnat]; exact hsmall), hnat]
  refine ⟨pace, ?_⟩
  rw [walk_eq, fits_eq _ (by omega), decide_eq_true hfits]
  simp only [hentry, hclosed, Bool.false_eq_true, ↓reduceIte, hpass, hnext]

/-- Where a chunk header fits, a listing that succeeds has an entry at `offset`. -/
theorem walk_head {fileLength offset : Nat} {entries : List Entry} {store' : Store}
    (h : walk fileLength offset store = .ok entries store')
    (hfits : offset + chunkHeaderSize ≤ fileLength) (hsmall : fileLength < 2 ^ 64) :
    ∃ entry rest, entries = entry :: rest ∧ entry.offset = offset := by
  rw [walk_eq, fits_eq _ (Nat.lt_of_le_of_lt hfits hsmall), decide_eq_true hfits] at h
  simp only at h
  cases hentry : readEntry offset store with
  | error e store₁ =>
    rw [hentry] at h
    cases h
  | ok entry store₁ =>
    have hoffset := readEntry_offset hentry
    rw [hentry] at h
    simp only at h
    split at h
    case isTrue hopen =>
      obtain ⟨rfl, -⟩ := h
      exact ⟨entry, [], rfl, hoffset⟩
    case isFalse hopen =>
      split at h
      case h_1 => cases h
      case h_2 =>
        split at h
        case h_1 => cases h
        case h_2 =>
          obtain ⟨rest, -, rfl⟩ := prepend_eq_ok_iff.1 h
          exact ⟨entry, rest, rfl, hoffset⟩

/-! ## Chunks that declare their length -/

end ChunkList

/-- What a listing has to say of chunks that stand one behind the other from `offset` on. -/
def Chunk.entries (offset : Nat) : List Chunk → List ChunkList.Entry
  | [] => []
  | chunk :: chunks =>
    ⟨chunk.header.kind, offset, chunk.header.size⟩ :: entries (offset + chunk.length) chunks

namespace ChunkList

/-- Chunks up to the end of the bytes are listed by `walk`, each with its type, its offset and its
size. -/
theorem walk_of_chunks (hread : store.Readable) (hsize : store.bytes.size < 2 ^ 63)
    (hcursor : store.cursor ≤ store.bytes.size) {chunks : List Chunk}
    (hcontent : store.content.drop store.cursor = chunks.flatMap Chunk.toBytes) :
    ∃ store', walk store.bytes.size store.cursor store =
      .ok (Chunk.entries store.cursor chunks) store' := by
  have hlength : store.bytes.size - store.cursor = Chunk.lengths chunks := by
    rw [← Store.length_content, ← List.length_drop, hcontent, Chunk.length_flatMap_toBytes]
  -- The walk goes on behind the first chunk with the same store, whose cursor has moved.
  induction chunks generalizing store with
  | nil =>
    have hend : store.bytes.size < store.cursor + chunkHeaderSize := by
      simp only [Chunk.lengths, chunkHeaderSize] at hlength ⊢
      omega
    exact ⟨store, walk_of_end store hend (by rw [chunkHeaderSize]; omega)⟩
  | cons chunk chunks ih =>
    have hfirst : store.content.drop (store.cursor + chunk.length) =
        chunks.flatMap Chunk.toBytes :=
      Bytes.drop_add_of_append hcontent chunk.length_toBytes
    rw [Chunk.lengths] at hlength
    rw [List.flatMap_cons, Chunk.toBytes_eq, List.append_assoc] at hcontent
    have hend : store.cursor + chunk.length ≤ store.bytes.size := by
      have : 0 < chunk.length := by rw [Chunk.length, chunkHeaderSize]; omega
      omega
    obtain ⟨pace, hwalk⟩ := walk_of_entry hread hcontent chunk.toInt_size rfl
      (Nat.le_trans hend hread.size) (Nat.lt_of_le_of_lt hend (by omega))
    obtain ⟨store', hrest⟩ := ih (hread.movedTo (Nat.le_trans hend hread.size) pace) hsize hend
      hfirst (by rw [Store.movedTo_bytes, Store.movedTo_cursor]; omega)
    rw [hwalk]
    exact ⟨store', prepend_eq_ok_iff.2 ⟨_, hrest, rfl⟩⟩

/-! ## Listing a store -/

/-- Behind a file header the `walk` begins. -/
theorem read_of_fileHeader (hread : store.Readable) {header : FileHeader} {rest : Bytes}
    (hcontent : store.content = header.toBytes ++ rest)
    (hmarker : header.marker = containerMarker) :
    ∃ pace, read store =
      walk store.bytes.size fileHeaderSize (store.movedTo fileHeaderSize pace) := by
  obtain ⟨pace, hfile⟩ := Header.readFileHeader_eq hread hcontent
  refine ⟨pace, ?_⟩
  rw [read, Run.bind_of_ok (Store.run_of_ok hread.length_eq),
    Run.bind_of_ok (Store.run_of_ok (Store.seekTo_eq hread.seek (Nat.zero_le _))),
    Run.bind_of_ok hfile]
  exact Run.bind_of_ok (Header.requireMarker_eq hmarker _)

/-- A container of `chunks` that all declare their length is listed as it is. -/
theorem read_of_chunks (hread : store.Readable) (hsize : store.bytes.size < 2 ^ 63)
    {chunks : List Chunk}
    (hcontent : store.content = FileHeader.standard.toBytes ++ chunks.flatMap Chunk.toBytes) :
    ∃ store', read store = .ok (Chunk.entries fileHeaderSize chunks) store' := by
  have hend : fileHeaderSize ≤ store.bytes.size := by
    rw [← Store.length_content, hcontent, List.length_append, FileHeader.length_toBytes]
    omega
  obtain ⟨pace, hwalk⟩ := read_of_fileHeader hread hcontent rfl
  rw [hwalk]
  refine walk_of_chunks (hread.movedTo (Nat.le_trans hend hread.size) pace) hsize hend ?_
  rw [Store.movedTo_content, Store.movedTo_cursor, hcontent,
    List.drop_left' (FileHeader.length_toBytes _)]

/-- The entries of a header that is written here, where its data chunk declares a size of
`declared`. -/
def headerEntries (declared : Nat) : List Entry :=
  [⟨.description, 8, 32⟩, ⟨.data, 52, Int64.ofNat declared⟩]

/-- Behind a header that is written here, the walk goes on at what the data chunk declares, which
counts from the edit count on. -/
theorem read_of_header (hread : store.Readable) {d : Description} {declared : Nat} {rest : Bytes}
    (hcontent : store.content = headerBytes d (Int64.ofNat declared) ++ rest)
    (hreach : 64 + declared ≤ store.medium.reach) (hdeclared : declared < 2 ^ 63) :
    ∃ pace, read store = prepend ⟨.description, 8, 32⟩ (prepend ⟨.data, 52, Int64.ofNat declared⟩
      (walk store.bytes.size (64 + declared) (store.movedTo (64 + declared) pace))) := by
  -- The entries are stated by kind, the chunks in the content by code.
  have hkind : ChunkKind.description = .ofCode ChunkKind.description.code := by decide
  have hkind' : ChunkKind.data = .ofCode ChunkKind.data.code := by decide
  have hsize : (Int64.ofNat descriptionSize).toInt = (descriptionSize : Nat) := rfl
  simp only [headerBytes, List.append_assoc] at hcontent
  obtain ⟨pace₁, hfile⟩ := read_of_fileHeader hread hcontent rfl
  have hdescription := congrArg (List.drop fileHeaderSize) hcontent
  rw [List.drop_left' (FileHeader.length_toBytes _)] at hdescription
  have hdata := Bytes.drop_add_of_append (Bytes.drop_add_of_append hdescription
    (ChunkHeader.length_toBytes _)) (Description.length_toBytes d)
  rw [hkind] at hdescription
  rw [hkind'] at hdata
  have hsecond : 52 ≤ store.medium.reach := Nat.le_trans (by omega) hreach
  obtain ⟨pace₂, hwalk⟩ := walk_of_entry
    (hread.movedTo (Nat.le_trans (show 8 ≤ 64 + declared by omega) hreach) pace₁) hdescription
    hsize (show 8 + (12 + 32) = 52 from rfl) hsecond (by decide)
  obtain ⟨pace₃, hwalk'⟩ := walk_of_entry (hread.movedTo hsecond pace₂) hdata
    (Int64.toInt_ofNat_of_lt hdeclared) (show 52 + (12 + declared) = 64 + declared by omega) hreach
    (by omega)
  exact ⟨pace₃, hfile.trans (hwalk.trans (congrArg (prepend _) hwalk'))⟩

/-! ## Chunks behind the samples -/

variable {d : Description} {samples : Bytes} {chunks : List Chunk}

/-- A store that ends with its `samples` is listed. -/
theorem read_of_samples (hread : store.Readable) (hsize : store.bytes.size < 2 ^ 63)
    (hcontent : store.content = headerBytes d (Int64.ofNat samples.length) ++ samples) :
    ∃ store', read store = .ok (headerEntries samples.length) store' := by
  have hlength : store.bytes.size = 68 + samples.length := Store.size_of_header hcontent
  have hreach := hread.size
  obtain ⟨pace, hlisting⟩ := read_of_header hread hcontent (by omega) (by omega)
  rw [walk_of_end _ (show store.bytes.size < 64 + samples.length + 12 by omega)
    (show 64 + samples.length + 12 < 2 ^ 64 by omega)] at hlisting
  exact ⟨_, hlisting⟩

/-- Where a chunk follows the `samples`, the listing has an entry four bytes in front of it, if it
succeeds at all. -/
theorem third_entry_of_samples (hread : store.Readable) (hsize : store.bytes.size < 2 ^ 63)
    (hcontent : store.content = headerBytes d (Int64.ofNat samples.length) ++
      (samples ++ chunks.flatMap Chunk.toBytes))
    (hchunks : chunks ≠ []) {entries : List Entry} {store' : Store}
    (h : read store = .ok entries store') :
    ∃ entry rest, entries = headerEntries samples.length ++ entry :: rest ∧
      entry.offset = 64 + samples.length := by
  have hlength : store.bytes.size = 68 + (samples.length + Chunk.lengths chunks) := by
    rw [Store.size_of_header hcontent, List.length_append, Chunk.length_flatMap_toBytes]
    rfl
  have hchunk : 12 ≤ Chunk.lengths chunks := by
    obtain ⟨chunk, rest, rfl⟩ := List.exists_cons_of_ne_nil hchunks
    rw [Chunk.lengths, Chunk.length, chunkHeaderSize]
    omega
  have hreach := hread.size
  obtain ⟨pace, hlisting⟩ := read_of_header hread hcontent (by omega) (by omega)
  rw [hlisting] at h
  obtain ⟨tail, htail, rfl⟩ := prepend_eq_ok_iff.1 h
  obtain ⟨behind, hbehind, rfl⟩ := prepend_eq_ok_iff.1 htail
  obtain ⟨entry, rest, rfl, hoffset⟩ := walk_head hbehind
    (show 64 + samples.length + 12 ≤ store.bytes.size by omega) (by omega)
  exact ⟨entry, rest, rfl, hoffset⟩

/-- The `chunks` behind the samples are listed only where there are none. -/
theorem read_eq_ok_iff_of_samples (hread : store.Readable) (hsize : store.bytes.size < 2 ^ 63)
    (hcontent : store.content = headerBytes d (Int64.ofNat samples.length) ++
      (samples ++ chunks.flatMap Chunk.toBytes)) :
    (∃ store', read store = .ok
      (headerEntries samples.length ++ Chunk.entries (headerSize + samples.length) chunks) store') ↔
      chunks = [] := by
  constructor
  · rintro ⟨store', hlisting⟩
    by_cases hchunks : chunks = []
    case pos => exact hchunks
    obtain ⟨entry, rest, hentries, hoffset⟩ :=
      third_entry_of_samples hread hsize hcontent hchunks hlisting
    -- The first chunk starts four bytes behind the entry that the listing has for it.
    obtain ⟨chunk, chunks, rfl⟩ := List.exists_cons_of_ne_nil hchunks
    obtain ⟨rfl, -⟩ := List.cons_eq_cons.1 (List.append_cancel_left hentries)
    have hshift : 68 + samples.length = 64 + samples.length := hoffset
    omega
  · rintro rfl
    rw [List.flatMap_nil, List.append_nil] at hcontent
    exact read_of_samples hread hsize hcontent

/-- A session that ends its samples after the calls `before` and goes on with `chunks` leaves a
header that declares the samples alone. The listing of what it leaves has those chunks, at their
offsets, only if there are none; otherwise the first entry behind the data chunk is four bytes in
front of the first chunk. -/
theorem read_of_session {store : Store} (request : StreamRequest) (before after : List Writer.Call)
    (chunks : List Chunk) (hrequest : request.check = .ok ()) (hempty : store.bytes.size = 0)
    (hcursor : store.cursor ≤ store.medium.reach) (hbad : store.faults.bad = none)
    (haccepting : store.Accepting (headerSize +
      ((before.flatMap Writer.Call.samples).length + Chunk.lengths chunks)))
    (hafter : ∀ c ∈ after, c ≠ .endSamples)
    (hchunks : after.flatMap Writer.Call.samples = chunks.flatMap Chunk.toBytes) :
    ∃ writer answers writer', Writer.create request store = .ok writer writer.store ∧
      Writer.run (before ++ .endSamples :: after) writer = .ok answers writer' ∧
      writer'.close.1 = .ok () ∧
      ((∃ listed, read writer'.close.2 = .ok
        (headerEntries (before.flatMap Writer.Call.samples).length ++
          Chunk.entries (headerSize + (before.flatMap Writer.Call.samples).length) chunks) listed) ↔
        chunks = []) ∧
      (chunks ≠ [] → ∀ entries listed, read writer'.close.2 = .ok entries listed →
        ∃ entry rest,
          entries = headerEntries (before.flatMap Writer.Call.samples).length ++ entry :: rest ∧
          entry.offset = 64 + (before.flatMap Writer.Call.samples).length) := by
  have hsamples : (before ++ .endSamples :: after).flatMap Writer.Call.samples =
      before.flatMap Writer.Call.samples ++ chunks.flatMap Chunk.toBytes := by
    rw [List.flatMap_append, List.flatMap_cons, hchunks]
    rfl
  have hlength : ((before ++ .endSamples :: after).flatMap Writer.Call.samples).length =
      (before.flatMap Writer.Call.samples).length + Chunk.lengths chunks := by
    rw [hsamples, List.length_append, Chunk.length_flatMap_toBytes]
  obtain ⟨writer, writer', hcreate, hrun, hclose, hcontent, -, hreadable⟩ :=
    Writer.close_of_session request (before ++ .endSamples :: after) hrequest hempty hcursor
      (by rw [hlength]; exact haccepting)
  rw [Ledger.declared_run_append hafter, hsamples] at hcontent
  have hsize : writer'.close.2.bytes.size < 2 ^ 63 := by
    rw [Store.size_of_header hcontent, List.length_append, Chunk.length_flatMap_toBytes]
    exact haccepting.capacity_lt
  exact ⟨writer, _, writer', hcreate, hrun, hclose,
    read_eq_ok_iff_of_samples (hreadable hbad) hsize hcontent,
    fun hne _ _ h => third_entry_of_samples (hreadable hbad) hsize hcontent hne h⟩

/-- Behind two bytes of samples, a chunk of one byte is not listed. -/
theorem read_of_session_short :
    ∃ writer answers writer',
      Writer.create (.mono .pcm16 44100) { bytes := .empty } = .ok writer writer.store ∧
      Writer.run [.write ⟨#[1, 2]⟩, .settle, .endSamples,
        .write ⟨#[102, 114, 101, 101, 0, 0, 0, 0, 0, 0, 0, 1, 9]⟩] writer = .ok answers writer' ∧
      writer'.close.1 = .ok () ∧
      ¬ ∃ listed, read writer'.close.2 = .ok (headerEntries 2 ++ [⟨.free, 70, 1⟩]) listed := by
  have haccepting : Store.Accepting { bytes := .empty } 83 :=
    ⟨rfl, rfl, rfl, rfl, rfl, by decide, by rintro _ ⟨rfl⟩; decide, by decide⟩
  obtain ⟨writer, answers, writer', hcreate, hrun, hclose, hlisting, -⟩ :=
    read_of_session (.mono .pcm16 44100) [.write ⟨#[1, 2]⟩, .settle]
      [.write ⟨#[102, 114, 101, 101, 0, 0, 0, 0, 0, 0, 0, 1, 9]⟩]
      [⟨.ofChars 'f' 'r' 'e' 'e', [9], by decide⟩] rfl rfl (Nat.zero_le _) rfl haccepting (by simp)
      (by decide)
  refine ⟨writer, answers, writer', hcreate, hrun, hclose, fun hlisted => ?_⟩
  exact absurd (hlisting.1 hlisted) (List.cons_ne_nil _ _)

/-- Behind eight bytes of samples a chunk starts at offset 76. The listing has an entry at offset 72
instead, whose code is taken from the samples and whose size from the code of the chunk. -/
theorem read_of_free_behind_samples :
    ∃ writer writer',
      Writer.create (.mono .pcm16 44100) { bytes := .empty } = .ok writer writer.store ∧
      Writer.run [.write ⟨#[1, 2, 3, 4, 5, 6, 7, 8]⟩, .endSamples,
        .write ⟨#[102, 114, 101, 101, 0, 0, 0, 0, 0, 0, 0, 8, 0, 0, 0, 0, 0, 0, 0, 0]⟩] writer =
        .ok [.done, .offset 76, .done] writer' ∧
      writer'.close.1 = .ok () ∧
      (∃ listed, read writer'.close.2 =
        .ok (headerEntries 8 ++ [⟨.other ⟨5, 6, 7, 8⟩, 72, 0x6672656500000000⟩]) listed) ∧
      ¬ ∃ listed, read writer'.close.2 = .ok (headerEntries 8 ++ [⟨.free, 76, 8⟩]) listed := by
  have haccepting : Store.Accepting { bytes := .empty } 96 :=
    ⟨rfl, rfl, rfl, rfl, rfl, by decide, by rintro _ ⟨rfl⟩; decide, by decide⟩
  obtain ⟨writer, writer', hcreate, hrun, hclose, hcontent, halike, hreadable⟩ :=
    Writer.close_of_session (.mono .pcm16 44100) [.write ⟨#[1, 2, 3, 4, 5, 6, 7, 8]⟩, .endSamples,
      .write ⟨#[102, 114, 101, 101, 0, 0, 0, 0, 0, 0, 0, 8, 0, 0, 0, 0, 0, 0, 0, 0]⟩]
      rfl rfl (Nat.zero_le _) haccepting
  refine ⟨writer, writer', hcreate, hrun, hclose, ?_⟩
  have hread := hreadable rfl
  generalize writer'.close.2 = closed at *
  have hheader : closed.content = headerBytes _ (Int64.ofNat 8) ++ _ := hcontent
  have hsize : closed.bytes.size = 96 := Store.size_of_header hheader
  have hreach : closed.medium.reach = 2 ^ 64 - 1 := by
    rw [halike.medium]
    rfl
  -- At offset 72 the last samples and the start of the chunk are taken for a header.
  have hentry : closed.content.drop (headerSize + 4) =
      (ChunkHeader.mk (.ofCode ⟨5, 6, 7, 8⟩) 0x6672656500000000).toBytes ++
        [0, 0, 0, 8, 0, 0, 0, 0, 0, 0, 0, 0] := by
    have hfour : ([1, 2, 3, 4] : Bytes).length = 4 := rfl
    rw [hheader]
    exact Bytes.drop_add_of_append (List.drop_left' (length_headerBytes _ _)) hfour
  obtain ⟨pace, hlisting⟩ := read_of_header hread hheader (by omega) (by decide)
  obtain ⟨pace', hwalk⟩ := walk_of_entry (hread.movedTo (show 72 ≤ _ by omega) pace) hentry
    (show _ = ((0x6672656500000000 : Nat) : Int) from rfl)
    (show 72 + (12 + 0x6672656500000000) = 0x6672656500000054 from rfl)
    (by rw [Store.movedTo_medium, hreach]; decide) (by decide)
  have hend := walk_of_end (closed.movedTo 0x6672656500000054 pace')
    (show closed.bytes.size < 0x6672656500000054 + 12 by omega) (by decide)
  have hlisted : read closed =
      .ok (headerEntries 8 ++ [⟨.other ⟨5, 6, 7, 8⟩, 72, 0x6672656500000000⟩])
        (closed.movedTo 0x6672656500000054 pace') :=
    hlisting.trans (congrArg (fun r => prepend _ (prepend _ r))
      (hwalk.trans (congrArg (prepend _) hend)))
  refine ⟨⟨_, hlisted⟩, ?_⟩
  rintro ⟨listed, hother⟩
  rw [hlisted] at hother
  cases hother

end ChunkList

end Caf
