import Caf.Proofs.Container.Listing
import Caf.Proofs.Run.Outcome

/-!
# Opening and listing follow the same chunks

Opening and listing both go from chunk to chunk by the sizes that the headers declare. Opening asks
the store for its cursor and stops at the first data chunk; listing counts offsets of its own and
goes on to the end of the file. What both of them follow is a chain of headers, which the bytes
alone determine, so a listing that succeeds tells what opening comes to.

## Main definitions

* `ChunkList.Chain`: the chain of chunk headers from an offset on;
* `ChunkList.Leads`: a listing that leads to samples;
* `Header.Search.Follows`: where the search leads along a chain;
* `Description.Refused`: the errors that a description is refused with.

## Main results

* `ChunkList.chain_of_read`: a listing that succeeds is the chain behind the file header;
* `Header.search_of_chain`: the search for the samples follows the chain;
* `Header.ends_read`: what reading a header comes to, told by the listing;
* `Reader.ofStore_of_listing`: what opening comes to, told by the listing.
-/

namespace Caf

variable {store : Store} {journal : Journal}

namespace ChunkList

/-- The chain of chunk headers from `offset` on, as far as the medium has offsets up to `reach`. It
ends where no further header fits, and with a data chunk that has no declared end. -/
inductive Chain (bytes : Bytes) (reach : Nat) : (offset : Nat) → List Entry → Prop where
  /-- No further header fits. -/
  | done {offset : Nat} (hend : bytes.length < offset + chunkHeaderSize) :
    Chain bytes reach offset []
  /-- A data chunk runs to the end. -/
  | openEnded {offset : Nat} {rest : Bytes}
    (hheader : bytes.drop offset = (ChunkHeader.mk .data (-1)).toBytes ++ rest) :
    Chain bytes reach offset [⟨.data, offset, -1⟩]
  /-- A chunk is followed by what stands behind its payload. -/
  | chunk {offset : Nat} {code : FourCC} {size : Int64} {rest : Bytes} {entries : List Entry}
    (hheader : bytes.drop offset = (ChunkHeader.mk (.ofCode code) size).toBytes ++ rest)
    (hsize : 0 ≤ size.toInt)
    (hreach : offset + (chunkHeaderSize + size.toInt.toNat) ≤ reach)
    (hrest : Chain bytes reach (offset + (chunkHeaderSize + size.toInt.toNat)) entries) :
    Chain bytes reach offset (⟨.ofCode code, offset, size⟩ :: entries)

/-- Every entry of a chain has its header within `bytes`, and none stands in front of the chain's
`offset`. -/
theorem Chain.of_mem {bytes : Bytes} {reach offset : Nat} {entries : List Entry}
    (hchain : Chain bytes reach offset entries) {entry : Entry} (hmem : entry ∈ entries) :
    offset ≤ entry.offset ∧ entry.offset + chunkHeaderSize ≤ bytes.length := by
  induction hchain with
  | done => cases hmem
  | openEnded hheader =>
    obtain rfl := List.mem_singleton.1 hmem
    exact ⟨Nat.le_refl _,
      Bytes.add_length_le_of_drop hheader (ChunkHeader.length_toBytes _) (by decide)⟩
  | chunk hheader hsize hreach hrest ih =>
    rcases List.mem_cons.1 hmem with rfl | hmem
    · exact ⟨Nat.le_refl _,
        Bytes.add_length_le_of_drop hheader (ChunkHeader.length_toBytes _) (by decide)⟩
    · obtain ⟨hbehind, hend⟩ := ih hmem
      exact ⟨Nat.le_trans (Nat.le_add_right ..) hbehind, hend⟩

/-- The first data chunk of `entries`. -/
def firstData? (entries : List Entry) : Option Entry :=
  entries.find? (·.kind == .data)

theorem firstData?_cons_of_data {entry : Entry} (h : entry.kind = .data) (entries : List Entry) :
    firstData? (entry :: entries) = some entry :=
  List.find?_cons_of_pos (by rw [h]; rfl)

theorem firstData?_cons_of_ne {entry : Entry} (h : entry.kind ≠ .data) (entries : List Entry) :
    firstData? (entry :: entries) = firstData? entries :=
  List.find?_cons_of_neg (by simpa using h)

theorem firstData?_cons_of_description {entry : Entry} (h : entry.kind = .description)
    (entries : List Entry) : firstData? (entry :: entries) = firstData? entries :=
  firstData?_cons_of_ne (by rw [h]; decide) entries

/-- A listing leads to samples: its `first` chunk is a description that is large enough for its
record, and the file reaches behind the edit count of `data`, its first data chunk. -/
structure Leads (fileLength : Nat) (entries : List Entry) (first data : Entry) : Prop where
  /-- The first chunk. -/
  head : entries.head? = some first
  /-- It is the description. -/
  description : first.kind = .description
  /-- It declares room for the record. -/
  large : (descriptionSize : Int) ≤ first.size.toInt
  /-- The first data chunk. -/
  samples : firstData? entries = some data
  /-- Its edit count is there. -/
  fits : data.offset + (chunkHeaderSize + editCountSize) ≤ fileLength

/-! ## Steps of a walk that succeeds -/

/-- Whether a chunk header at `offset` fits is told where its end is in range. -/
theorem fits_eq_ok_iff {fileLength offset : Nat} {fitting : Bool} :
    fits fileLength offset = .ok fitting ↔
      offset + chunkHeaderSize < 2 ^ 64 ∧
        decide (offset + chunkHeaderSize ≤ fileLength) = fitting := by
  by_cases hsmall : offset + chunkHeaderSize < 2 ^ 64
  case pos => rw [fits_eq fileLength hsmall, Except.ok.injEq, and_iff_right hsmall]
  case neg =>
    have hadd : addWithin 64 offset chunkHeaderSize = .error .addOverflow := if_neg hsmall
    rw [fits, hadd]
    refine ⟨fun h => ?_, fun h => absurd h.1 hsmall⟩
    cases h

/-- The offset behind a chunk of `size` bytes is found where it is in range. -/
theorem nextOffset_eq_ok_iff {offset next : Nat} {size : Int64} :
    nextOffset offset size = .ok next ↔
      offset + (chunkHeaderSize + size.toInt.toNat) < 2 ^ 64 ∧
        offset + (chunkHeaderSize + size.toInt.toNat) = next := by
  by_cases hsmall : offset + (chunkHeaderSize + size.toInt.toNat) < 2 ^ 64
  case pos => rw [nextOffset_eq hsmall, Except.ok.injEq, and_iff_right hsmall]
  case neg =>
    have hadd : addWithin 64 offset (chunkHeaderSize + size.toInt.toNat) = .error .addOverflow :=
      if_neg hsmall
    rw [nextOffset, hadd]
    refine ⟨fun h => ?_, fun h => absurd h.1 hsmall⟩
    cases h

/-- A data chunk has no declared end exactly where it declares a size of minus one. -/
theorem isOpenEnded_iff {entry : Entry} :
    entry.isOpenEnded = true ↔ entry.kind = .data ∧ entry.size = -1 := by
  simp [Entry.isOpenEnded]

end ChunkList

/-- A payload that `passPayload` has passed over has a size that is not negative, and ends at an
offset that the medium has. -/
theorem Header.passPayload_ok {header : ChunkHeader} {offset : Nat} {store' : Store}
    (h : passPayload header offset store = .ok () store') :
    0 ≤ header.size.toInt ∧ store.cursor + header.size.toInt.toNat ≤ store.medium.reach ∧
      store' = store.movedTo (store.cursor + header.size.toInt.toNat) store.faults.pace := by
  unfold passPayload at h
  split at h
  case isTrue => cases h
  case isFalse hneg =>
    rw [Int64.lt_iff_toInt_lt] at hneg
    have hseek := Store.explaining_ok h
    exact ⟨Int.not_lt.1 hneg, Store.le_reach_of_seekTo hseek, Store.seekTo_ok hseek⟩

namespace ChunkList

/-- A walk that succeeds has no `entries` where no header fits. Elsewhere it has the header at the
cursor as its next entry, and ends there or goes on behind what that header declares. -/
theorem walk_ok_cases (hread : store.Readable) {entries : List Entry} {store' : Store}
    (h : walk store.bytes.size store.cursor store = .ok entries store') :
    (store.bytes.size < store.cursor + chunkHeaderSize ∧ entries = []) ∨
    ∃ code size rest, store.content.drop store.cursor =
        (ChunkHeader.mk (.ofCode code) size).toBytes ++ rest ∧
      ((ChunkKind.ofCode code = .data ∧ size = -1 ∧ entries = [⟨.data, store.cursor, -1⟩]) ∨
      ∃ next tail pace, 0 ≤ size.toInt ∧
        store.cursor + (chunkHeaderSize + size.toInt.toNat) = next ∧ next ≤ store.medium.reach ∧
        walk store.bytes.size next (store.movedTo next pace) = .ok tail store' ∧
        entries = ⟨.ofCode code, store.cursor, size⟩ :: tail) := by
  rw [walk_eq] at h
  split at h
  case h_1 => cases h
  case h_2 hfits =>
    cases h
    exact .inl ⟨Nat.lt_of_not_le (of_decide_eq_false (fits_eq_ok_iff.1 hfits).2), rfl⟩
  case h_3 hfits =>
    have hend := of_decide_eq_true (fits_eq_ok_iff.1 hfits).2
    have hheader : chunkHeaderSize ≤ (store.content.drop store.cursor).length := by
      rw [List.length_drop, Store.length_content]
      omega
    obtain ⟨code, size, rest, hcontent⟩ := ChunkHeader.exists_toBytes_append hheader
    refine .inr ⟨code, size, rest, hcontent, ?_⟩
    obtain ⟨pace, hentry⟩ := readEntry_eq hread hcontent
    simp only [hentry] at h
    split at h
    -- An open-ended chunk is the last one; any other is passed over, and the list goes on.
    case isTrue hopen =>
      obtain ⟨hkind, hsize⟩ := isOpenEnded_iff.1 hopen
      dsimp only at hkind hsize
      cases h
      exact .inl ⟨hkind, hsize, by rw [hkind, hsize]⟩
    case isFalse hopen =>
      split at h
      case h_1 => cases h
      case h_2 hpass =>
        obtain ⟨hsize, hreach, rfl⟩ := Header.passPayload_ok hpass
        split at h
        case h_1 => cases h
        case h_2 hnext =>
          obtain ⟨-, rfl⟩ := nextOffset_eq_ok_iff.1 hnext
          obtain ⟨tail, hwalk, rfl⟩ := prepend_eq_ok_iff.1 h
          simp only [Store.movedTo_cursor, Store.movedTo_movedTo, Store.movedTo_medium,
            Nat.add_assoc] at hreach hwalk
          exact .inr ⟨_, tail, _, hsize, rfl, hreach, hwalk, rfl⟩

/-! ## Listings are chains -/

/-- A walk that succeeds follows the `Chain` from the cursor on. -/
theorem chain_of_walk (hread : store.Readable) {entries : List Entry} {store' : Store}
    (h : walk store.bytes.size store.cursor store = .ok entries store') :
    Chain store.content store.medium.reach store.cursor entries := by
  -- Every entry takes the cursor nearer to the end, or beyond it.
  induction hleft : store.bytes.size - store.cursor using Nat.strongRecOn
    generalizing store entries with
  | ind left ih =>
    rcases walk_ok_cases hread h with ⟨hend, rfl⟩ | ⟨code, size, rest, hcontent, hgoes⟩
    case inl => exact .done (by rwa [Store.length_content])
    have hfits := Store.add_length_le_size hcontent (by rw [ChunkHeader.length_toBytes]; decide)
    rw [ChunkHeader.length_toBytes] at hfits
    rcases hgoes with ⟨hkind, rfl, rfl⟩ | ⟨next, tail, pace, hsize, rfl, hreach, hwalk, rfl⟩
    case inl =>
      rw [hkind] at hcontent
      exact .openEnded hcontent
    refine .chunk hcontent hsize hreach ?_
    have hless :
        store.bytes.size - (store.cursor + (chunkHeaderSize + size.toInt.toNat)) < left := by
      simp only [chunkHeaderSize] at hfits ⊢
      omega
    exact ih _ hless (hread.movedTo hreach pace) hwalk rfl

/-- A listing that succeeds is the `Chain` behind the file header. -/
theorem chain_of_read (hread : store.Readable) {entries : List Entry} {listed : Store}
    (h : read store = .ok entries listed) :
    ∃ (header : FileHeader) (rest : Bytes), store.content = header.toBytes ++ rest ∧
      header.marker = containerMarker ∧
      Chain store.content store.medium.reach fileHeaderSize entries := by
  rw [read, Run.bind_of_ok (Store.run_of_ok hread.length_eq),
    Run.bind_of_ok (Store.run_of_ok (Store.seekTo_eq hread.seek (Nat.zero_le _)))] at h
  obtain ⟨found, store₁, hfile, h⟩ := Run.bind_eq_ok_iff.1 h
  obtain ⟨_, store₂, hmarked, h⟩ := Run.bind_eq_ok_iff.1 h
  -- A header that has been read is there, and its marker is the right one.
  have hfits : fileHeaderSize ≤ store.bytes.size := (Store.record_ok hfile).2.2
  obtain ⟨header, rest, hcontent⟩ :=
    FileHeader.exists_toBytes_append (Store.length_content store ▸ hfits)
  obtain ⟨pace, hsame⟩ := Header.readFileHeader_eq hread hcontent
  obtain ⟨rfl, rfl⟩ := EStateM.Result.ok.inj (hfile.symm.trans hsame)
  by_cases hmarker : found.marker = containerMarker
  case neg =>
    rw [Header.requireMarker_of_ne hmarker] at hmarked
    cases hmarked
  rw [Header.requireMarker_eq hmarker] at hmarked
  cases hmarked
  exact ⟨found, rest, hcontent, hmarker,
    chain_of_walk (hread.movedTo (Nat.le_trans hfits hread.size) pace) h⟩

end ChunkList

/-! ## Looking for the samples along a chain -/

namespace Header

open ChunkList (Chain Entry Leads firstData?)

/-- Where the search for the samples leads along the chain `entries`: behind the edit count of the
first data chunk, if the bytes reach that far, and to a fault in the layout otherwise. -/
def Search.Follows (result : Search) (bytes : Bytes) (entries : List Entry) : Prop :=
  (∃ data entry, firstData? entries = some data ∧
    data.offset + (chunkHeaderSize + editCountSize) ≤ bytes.length ∧
    result = .found (data.offset + (chunkHeaderSize + editCountSize)) entry) ∨
  (∀ data, firstData? entries = some data →
    bytes.length < data.offset + (chunkHeaderSize + editCountSize)) ∧
  ∃ cause offset, result = .malformed cause offset

/-- Behind a chunk that is passed over, the search goes on along the rest of the chain. -/
theorem Search.Follows.behind {result : Search} {bytes : Bytes} {entries : List Entry}
    (h : result.Follows bytes entries) {entry : Entry} (hkind : entry.kind ≠ .data)
    (header : ChunkHeader) : (result.behind header).Follows bytes (entry :: entries) := by
  rw [Search.Follows, ChunkList.firstData?_cons_of_ne hkind]
  rcases h with ⟨data, found, hdata, hfits, rfl⟩ | ⟨hshort, cause, offset, rfl⟩
  · exact .inl ⟨data, _, hdata, hfits, rfl⟩
  · exact .inr ⟨hshort, cause, offset, rfl⟩

/-- At the header of a data chunk `entry` the samples are found, if its edit count is there. -/
theorem search_at_data {bytes : Bytes} {reach : Nat} {entry : Entry} {rest : Bytes}
    (hkind : entry.kind = .data)
    (hheader : bytes.drop entry.offset = (ChunkHeader.mk entry.kind entry.size).toBytes ++ rest)
    (entries : List Entry) :
    (search bytes reach entry.offset).Follows bytes (entry :: entries) := by
  have hcode : entry.kind = .ofCode ChunkKind.data.code := hkind.trans (by decide)
  rw [hcode] at hheader
  have hlength := congrArg List.length
    (Bytes.drop_add_of_append hheader (ChunkHeader.length_toBytes _))
  rw [List.length_drop] at hlength
  have hfits := Bytes.add_length_le_of_drop hheader (ChunkHeader.length_toBytes _) (by decide)
  rw [Search.Follows, ChunkList.firstData?_cons_of_data hkind]
  rcases search_of_data reach hheader (hcode ▸ hkind) with
    ⟨edits, samples, rfl, hsearch⟩ | ⟨hshort, hsearch⟩
  · refine .inl ⟨entry, _, rfl, ?_, hsearch⟩
    simp only [List.length_append, Field.length_be, Field.Word.width, editCountSize] at hlength ⊢
    omega
  · refine .inr ⟨?_, _, _, hsearch⟩
    rintro data ⟨rfl⟩
    omega

/-- The search for the samples follows the chain from `offset` on. -/
theorem search_of_chain {bytes : Bytes} {reach offset : Nat} {entries : List Entry}
    (hchain : Chain bytes reach offset entries) :
    (search bytes reach offset).Follows bytes entries := by
  induction hchain with
  | done hend => exact .inr ⟨nofun, _, _, search_of_short hend⟩
  | openEnded hheader => exact search_at_data rfl hheader []
  | @chunk offset code size rest entries hheader hsize hreach hrest ih =>
    by_cases hkind : ChunkKind.ofCode code = .data
    case pos => exact search_at_data hkind hheader entries
    case neg =>
      have hneg : ¬ size < 0 := by
        rw [Int64.lt_iff_toInt_lt]
        exact Int.not_lt.2 hsize
      rw [search_of_pass hheader hkind hneg hreach]
      exact ih.behind hkind _

/-- Along a chain the samples are found at `firstData? entries`. -/
theorem ends_findData (journal : Journal) (hread : store.Readable) {entries : List Entry}
    (hchain : Chain store.content store.medium.reach store.cursor entries) :
    Run.Ends
      (fun start _ => ∃ data, firstData? entries = some data ∧
        start = data.offset + (chunkHeaderSize + editCountSize) ∧ start ≤ store.bytes.size)
      (fun e _ => (∀ data, firstData? entries = some data →
          store.bytes.size < data.offset + (chunkHeaderSize + editCountSize)) ∧
        ∃ cause offset, e = .malformed cause offset)
      (findData store.bytes.size ⟨store, journal⟩) := by
  have hanswers := findData_of_search journal hread
  rw [← Store.length_content]
  rcases search_of_chain hchain with
    ⟨data, entry, hdata, hfits, hsearch⟩ | ⟨hshort, cause, offset, hsearch⟩
  · rw [hsearch] at hanswers
    obtain ⟨pace, hfound⟩ := hanswers
    rw [Store.length_content, hfound]
    exact ⟨data, hdata, rfl, hfits⟩
  · rw [hsearch] at hanswers
    obtain ⟨scan, herror⟩ := hanswers
    rw [Store.length_content, herror]
    exact ⟨hshort, _, _, rfl⟩

/-! ## The description in front of the chain -/

/-- A description chunk with its record `d` stands at the cursor of `store`, in front of the chain
`tail`, and `scan` has read it: the cursor stands where the chain goes on. -/
structure Described (store : Store) (first : Entry) (tail : List Entry) (d : Description)
    (scan : Scan) : Prop where
  /-- The chunk is the description. -/
  kind : first.kind = .description
  /-- It stands at the cursor. -/
  offset : first.offset = store.cursor
  /-- It declares room for the record. -/
  large : (descriptionSize : Int) ≤ first.size.toInt
  /-- The record. -/
  record : ∃ rest, store.content.drop (store.cursor + chunkHeaderSize) = d.toBytes ++ rest
  /-- The cursor has moved over what the chunk declares. -/
  moved : ∃ pace,
    scan.store = store.movedTo (store.cursor + (chunkHeaderSize + first.size.toInt.toNat)) pace
  /-- The medium has an offset there. -/
  reach : store.cursor + (chunkHeaderSize + first.size.toInt.toNat) ≤ store.medium.reach
  /-- The chain goes on there. -/
  chain : Chain store.content store.medium.reach
    (store.cursor + (chunkHeaderSize + first.size.toInt.toNat)) tail

/-- A description chunk with its record `d` at the cursor is the first of the chain from there, and
it is read. -/
theorem described_of_record (journal : Journal) (hread : store.Readable) {entries : List Entry}
    (hchain : Chain store.content store.medium.reach store.cursor entries) {size : Int64}
    {d : Description} {rest : Bytes} (hlarge : (descriptionSize : Int) ≤ size.toInt)
    (hrecord : store.content.drop store.cursor =
      (ChunkHeader.mk .description size).toBytes ++ (d.toBytes ++ rest)) :
    ∃ first tail scan, entries = first :: tail ∧ Described store first tail d scan ∧
      readDescription ⟨store, journal⟩ = .ok d scan := by
  have hkind : ChunkKind.description = .ofCode ChunkKind.description.code := by decide
  -- Of the chains from here, only one that goes on behind this header is left.
  cases hchain with
  | done hend =>
    have hfits := Bytes.add_length_le_of_drop hrecord (ChunkHeader.length_toBytes _) (by decide)
    exact absurd hfits (Nat.not_le.2 hend)
  | openEnded hheader =>
    have hdata : ChunkKind.data = .ofCode ChunkKind.data.code := by decide
    rw [hheader, hkind, hdata] at hrecord
    exact absurd (ChunkHeader.eq_of_append hrecord).1 (by decide)
  | chunk hheader hsize hreach hrest =>
    have hsame := hrecord
    rw [hheader, hkind] at hsame
    obtain ⟨hfirst, rfl, -⟩ := ChunkHeader.eq_of_append hsame
    have hbehind := Bytes.drop_add_of_append hrecord (ChunkHeader.length_toBytes _)
    obtain ⟨pace, hdescription⟩ := readDescription_eq journal hread rfl hrecord hlarge
      (by rwa [Nat.add_assoc])
    refine ⟨_, _, _, rfl, ⟨hfirst.trans hkind.symm, rfl, hlarge, ⟨rest, hbehind⟩, ⟨pace, ?_⟩,
      hreach, hrest⟩, hdescription⟩
    rw [Nat.add_assoc]

/-- Where a chain leads to samples, a description chunk with its record is the `first` of it. -/
theorem record_of_leads {entries : List Entry} {first data : Entry}
    (hchain : Chain store.content store.medium.reach store.cursor entries)
    (hleads : Leads store.bytes.size entries first data) :
    ∃ size d rest, (descriptionSize : Int) ≤ size.toInt ∧ store.content.drop store.cursor =
      (ChunkHeader.mk .description size).toBytes ++ (Description.toBytes d ++ rest) := by
  obtain ⟨hhead, hkind, hlarge, hsamples, -⟩ := hleads
  cases hchain with
  | done => cases hhead
  | openEnded =>
    cases hhead
    cases hkind
  | @chunk _ code size rest entries hheader hsize hreach hrest =>
    cases hhead
    dsimp only at hkind hlarge
    rw [ChunkList.firstData?_cons_of_description hkind] at hsamples
    -- The data chunk stands behind the description chunk, so that the record is there.
    obtain ⟨hbehind, hend⟩ := hrest.of_mem (List.mem_of_find?_eq_some hsamples)
    have hlength := congrArg List.length hheader
    rw [List.length_drop, List.length_append, ChunkHeader.length_toBytes] at hlength
    obtain ⟨d, rest, rfl⟩ := Description.exists_toBytes_append
      (show descriptionSize ≤ rest.length by omega)
    rw [hkind] at hheader
    exact ⟨size, d, rest, hlarge, hheader⟩

/-- The description chunk is read where it is the first of `entries` and its record is there. Where
it is not, the chain does not lead to samples. -/
theorem ends_readDescription (journal : Journal) (hread : store.Readable) {entries : List Entry}
    (hchain : Chain store.content store.medium.reach store.cursor entries) :
    Run.Ends
      (fun d scan => ∃ first tail, entries = first :: tail ∧ Described store first tail d scan)
      (fun e _ => (∀ first data, ¬ Leads store.bytes.size entries first data) ∧
        ∃ cause offset, e = .malformed cause offset)
      (readDescription ⟨store, journal⟩) := by
  rcases readDescription_cases journal hread with
    ⟨⟨kind, size⟩, d, rest, rfl, hlarge, hrecord⟩ | ⟨cause, offset, scan, herror⟩
  case inl =>
    obtain ⟨first, tail, scan, rfl, hdescribed, hdescription⟩ :=
      described_of_record journal hread hchain hlarge hrecord
    rw [hdescription]
    exact ⟨first, tail, rfl, hdescribed⟩
  case inr =>
    rw [herror]
    refine ⟨fun first data hleads => ?_, cause, offset, rfl⟩
    obtain ⟨size, d, rest, hlarge, hrecord⟩ := record_of_leads hchain hleads
    obtain ⟨_, _, _, -, -, hdescription⟩ :=
      described_of_record journal hread hchain hlarge hrecord
    rw [herror] at hdescription
    cases hdescription

/-- The chunks behind the file header are read where the chain `entries` leads to samples. Where it
does not, the layout is at fault. -/
theorem ends_readChunks (journal : Journal) (hread : store.Readable) {entries : List Entry}
    (hchain : Chain store.content store.medium.reach store.cursor entries) :
    Run.Ends
      (fun found _ => ∃ first data rest, Leads store.bytes.size entries first data ∧
        first.offset = store.cursor ∧
        found.2 = data.offset + (chunkHeaderSize + editCountSize) ∧
        store.content.drop (store.cursor + chunkHeaderSize) =
          Description.toBytes found.1 ++ rest)
      (fun e _ => (∀ first data, ¬ Leads store.bytes.size entries first data) ∧
        ∃ cause offset, e = .malformed cause offset)
      (readChunks store.bytes.size ⟨store, journal⟩) := by
  refine Run.Ends.bind (ends_readDescription journal hread hchain) ?_
  rintro d ⟨_, journal⟩ ⟨first, tail, rfl, hkind, hoffset, hlarge, ⟨rest, hrecord⟩, ⟨pace, rfl⟩,
    hreach, htail⟩
  -- The description has no samples, so that the search goes on along the tail of the chain.
  refine Run.Ends.bind (x := (findData store.bytes.size : ScanM Nat))
    ((ends_findData journal (hread.movedTo hreach pace) htail).mono (fun _ _ h => h) ?_) ?_
  · rintro e - ⟨hshort, hmalformed⟩
    refine ⟨?_, hmalformed⟩
    rintro _ data ⟨⟨rfl⟩, -, -, hsamples, hfits⟩
    rw [ChunkList.firstData?_cons_of_description hkind] at hsamples
    exact absurd (hshort data hsamples) (Nat.not_lt.2 hfits)
  rintro start scan ⟨data, hsamples, rfl, hfits⟩
  rw [Run.bind_of_ok (Scan.note_eq _)]
  exact ⟨first, data, rest, ⟨rfl, hkind, hlarge,
    (ChunkList.firstData?_cons_of_description hkind _).trans hsamples, hfits⟩, hoffset, rfl,
    hrecord⟩

end Header

/-! ## The judgement on the description -/

/-- The errors that the description `d` is refused with: its rate, its channels, or its encoding. -/
inductive Description.Refused (d : Description) : Error → Prop where
  /-- The rate is no positive whole number of thirty-two bits. -/
  | rate (h : Header.wholeRate? d.sampleRate = none) :
    Refused d (.malformed (.invalidSampleRate d.sampleRate) none)
  /-- There are no channels. -/
  | channels (h : d.channelsPerFrame = 0) : Refused d (.malformed .zeroChannels none)
  /-- No rule finds an encoding. -/
  | encoding (h : d.encoding? = none) :
    Refused d (.unsupported (.description d.formatId d.formatFlags d.bitsPerChannel
      d.bytesPerPacket))

namespace Header

open ChunkList (Leads)

/-- A description `d` makes a stream whose samples start where they have been found, or it is
refused for what it says. -/
theorem ends_streamOf (d : Description) (start fileLength : Nat) (scan : Scan) :
    Run.Ends (fun stream _ => stream.start = some start) (fun e _ => d.Refused e)
      (streamOf d start fileLength scan) := by
  rw [streamOf_eq]
  cases hrate : wholeRate? d.sampleRate with
  | none => exact .rate hrate
  | some rate =>
    by_cases hchannels : d.channelsPerFrame = 0
    case pos =>
      simp only [if_pos hchannels]
      exact Description.Refused.channels hchannels
    case neg =>
      simp only [if_neg hchannels]
      rw [Run.bind_of_ok (Scan.note_eq _)]
      cases hencoding : d.encoding? with
      | some encoding => rfl
      | none => exact .encoding hencoding

/-- What reading a header comes to is told by the listing. Where `entries` lead to samples, they are
found, and only the description can be refused. Elsewhere the layout is at fault. -/
theorem ends_read (hread : store.Readable) {entries : List ChunkList.Entry} {listed : Store}
    (hlisted : ChunkList.read store = .ok entries listed) :
    Run.Ends
      (fun header _ => ∃ first data, Leads store.bytes.size entries first data ∧
        first.offset = fileHeaderSize ∧
        header.stream.start = some (data.offset + (chunkHeaderSize + editCountSize)))
      (fun e _ => ((∃ first data, Leads store.bytes.size entries first data) ∧
          ∃ d rest, store.content.drop (fileHeaderSize + chunkHeaderSize) =
            Description.toBytes d ++ rest ∧ d.Refused e) ∨
        (∀ first data, ¬ Leads store.bytes.size entries first data) ∧
          ∃ cause offset, e = .malformed cause offset)
      (read ⟨store, .empty⟩) := by
  obtain ⟨header, rest, hcontent, hmarker, hchain⟩ := ChunkList.chain_of_read hread hlisted
  obtain ⟨pace, hmarked⟩ := readMarked_eq .empty hread hcontent hmarker
  have hend : fileHeaderSize ≤ store.bytes.size := by
    rw [← Store.length_content, hcontent, List.length_append, FileHeader.length_toBytes]
    omega
  have hread₁ := hread.movedTo (Nat.le_trans hend hread.size) pace
  rw [read_eq _ hread, readParts, Run.bind_of_ok hmarked]
  refine Run.Ends.bind ((ends_readChunks (Journal.empty.noteFileHeader header) hread₁ hchain).mono
    (fun _ _ h => h) fun _ _ h => .inr h) ?_
  rintro ⟨d, start⟩ scan ⟨first, data, rest, hleads, hoffset, rfl, hrecord⟩
  refine Run.Ends.bind ((ends_streamOf d _ _ _).mono (fun _ _ h => h) ?_) ?_
  · rintro e - hrefused
    exact .inl ⟨⟨first, data, hleads⟩, d, rest, hrecord, hrefused⟩
  · rintro stream - hstart
    exact ⟨first, data, hleads, hoffset, hstart⟩

end Header

/-! ## Opening what has been listed -/

namespace Reader

open ChunkList (Leads firstData?)

/-- What opening `store` comes to where its chunks can be listed as `entries`. A container that is
opened has its description first, and its samples behind the edit count of the first data chunk.
Where the listing `Leads` to samples they are found there, and only what the description says can be
refused. Where the listing has no data chunk the layout is at fault. -/
theorem ofStore_of_listing (hread : store.Readable) {entries : List ChunkList.Entry}
    {listed : Store} (hlisted : ChunkList.read store = .ok entries listed) :
    (∀ reader opened, ofStore store = .ok reader opened →
      ∃ first data, Leads store.bytes.size entries first data ∧ first.offset = fileHeaderSize ∧
        reader.stream.start = some (data.offset + (chunkHeaderSize + editCountSize))) ∧
    (∀ first data, Leads store.bytes.size entries first data →
      (∃ reader opened, ofStore store = .ok reader opened ∧
        reader.stream.start = some (data.offset + (chunkHeaderSize + editCountSize))) ∨
      ∃ d rest e opened, store.content.drop (fileHeaderSize + chunkHeaderSize) =
        Description.toBytes d ++ rest ∧ d.Refused e ∧ ofStore store = .error e opened) ∧
    (firstData? entries = none →
      ∃ cause offset opened, ofStore store = .error (.malformed cause offset) opened) := by
  -- All three parts are read off what the search for the samples ends with on a listed store.
  have hends := Header.ends_read hread hlisted
  cases hheader : Header.read ⟨store, .empty⟩ with
  | ok header scan =>
    rw [hheader] at hends
    obtain ⟨first, data, hleads, hoffset, hstart⟩ := hends
    have hopen : ofStore store = .ok ⟨header, header.stream.region, scan.journal⟩ scan.store :=
      ofStore_eq_ok_iff.2 ⟨header, scan, hheader, rfl, rfl⟩
    rw [hopen]
    refine ⟨?_, ?_, ?_⟩
    · intro reader opened hok
      obtain ⟨rfl, -⟩ := EStateM.Result.ok.inj hok
      exact ⟨first, data, hleads, hoffset, hstart⟩
    · intro first' data' hleads'
      -- There is one first data chunk, the one that was opened.
      obtain rfl := Option.some.inj (hleads.samples.symm.trans hleads'.samples)
      exact .inl ⟨_, _, rfl, hstart⟩
    · intro hnone
      have hsamples := hleads.samples
      rw [hnone] at hsamples
      cases hsamples
  | error e scan =>
    rw [hheader] at hends
    rw [ofStore_of_error hheader]
    refine ⟨?_, ?_, ?_⟩
    · intro reader opened hok
      cases hok
    · intro first data hleads
      rcases hends with ⟨-, d, rest, hrecord, hrefused⟩ | ⟨hnone, -⟩
      · exact .inr ⟨d, rest, e, _, hrecord, hrefused, rfl⟩
      · exact absurd hleads (hnone first data)
    · intro hnone
      rcases hends with ⟨⟨first, data, hleads⟩, -⟩ | ⟨-, cause, offset, rfl⟩
      · have hsamples := hleads.samples
        rw [hnone] at hsamples
        cases hsamples
      · exact ⟨cause, offset, _, rfl⟩

/-- Behind a description and a chunk of padding the samples are found at offset 83, also where
another chunk follows them. -/
theorem ofStore_of_listing_behind_padding :
    ∃ (store : Store) (listed : Store),
      ChunkList.read store = .ok [⟨.description, 8, 32⟩, ⟨.free, 52, 3⟩, ⟨.data, 67, 6⟩,
        ⟨.strings, 85, 0⟩] listed ∧
      ∃ reader opened, ofStore store = .ok reader opened ∧ reader.stream.start = some 83 := by
  let description : Description := ⟨⟨0x40E5888000000000⟩, Description.lpcm, 0, 2, 1, 1, 16⟩
  let chunks : List Chunk :=
    [⟨ChunkKind.description.code, description.toBytes, by rw [Description.length_toBytes]; decide⟩,
      ⟨ChunkKind.free.code, [1, 2, 3], by decide⟩,
      ⟨ChunkKind.data.code, [0, 0, 0, 0, 7, 8], by decide⟩, ⟨ChunkKind.strings.code, [], by decide⟩]
  let store : Store :=
    { bytes := ⟨(FileHeader.standard.toBytes ++ chunks.flatMap Chunk.toBytes).toArray⟩ }
  have hcontent : store.content = FileHeader.standard.toBytes ++ chunks.flatMap Chunk.toBytes := rfl
  have hsize : store.bytes.size = 97 := by
    rw [← Store.length_content, hcontent, List.length_append, FileHeader.length_toBytes,
      Chunk.length_flatMap_toBytes]
    simp [chunks, Chunk.lengths, Chunk.length, fileHeaderSize, chunkHeaderSize, descriptionSize]
  have hread : store.Readable := ⟨rfl, rfl, rfl, Nat.zero_le _, by rw [hsize]; decide⟩
  obtain ⟨listed, hlisted⟩ := ChunkList.read_of_chunks hread (by rw [hsize]; decide) hcontent
  have hentries : Chunk.entries fileHeaderSize chunks = [⟨.description, 8, 32⟩, ⟨.free, 52, 3⟩,
      ⟨.data, 67, 6⟩, ⟨.strings, 85, 0⟩] := by
    decide
  rw [hentries] at hlisted
  refine ⟨store, listed, hlisted, ?_⟩
  rcases (ofStore_of_listing hread hlisted).2.1 _ ⟨.data, 67, 6⟩
    ⟨rfl, by decide, by decide, by decide, by rw [hsize]; decide⟩ with
    hopen | ⟨d, rest, e, -, hrecord, hrefused, -⟩
  · exact hopen
  -- The description that stands there is not refused.
  · have hstands : store.content.drop (fileHeaderSize + chunkHeaderSize) =
        description.toBytes ++ store.content.drop 52 := by
      decide
    rw [hstands] at hrecord
    have hfound := congrArg Description.read? hrecord
    rw [Description.read?_toBytes_append, Description.read?_toBytes_append] at hfound
    obtain ⟨rfl, -⟩ := Prod.mk.inj (Option.some.inj hfound)
    cases hrefused with
    | rate h => exact absurd h (by decide)
    | channels h => exact absurd h (by decide)
    | encoding h => exact absurd h (by decide)

end Reader

end Caf
