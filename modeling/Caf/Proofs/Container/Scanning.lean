import Caf.Container.Reader
import Caf.Proofs.Container.Searching
import Caf.Proofs.Container.Steps
import Caf.Proofs.Store.Reading

/-!
# Scanning a header

What the steps of reading a header do on a store without faults, told by the bytes that stand at the
cursor. Each step succeeds where its record is there, and is a fault in the layout where it is not.
The scan for the samples is the only loop; it comes to what `Header.search` finds in the bytes.

## Main definitions

* `Header.Search.Answers`: a run of the scan has come to what a search comes to.

## Main results

* `Header.readMarked_eq`, `Header.readMarked_cases`: the file header;
* `Header.readDescription_eq`, `Header.readDescription_cases`: the description chunk;
* `Header.findData_of_search`: looking for the samples is the search through the bytes;
* `Header.findData_of_body`, `Header.findData_cases`: from a body the samples are found, and where
  no body stands, the layout is at fault.
-/

namespace Caf

variable {store : Store} {journal : Journal}

/-! ## Steps of a scan -/

namespace Scan

variable {α : Type}

theorem onStore_of_ok {operation : CafM α} {store' : Store} {x : α}
    (h : operation store = .ok x store') :
    onStore operation ⟨store, journal⟩ = .ok x ⟨store', journal⟩ := by
  simp only [onStore, h]

theorem onStore_of_error {operation : CafM α} {store' : Store} {e : Error}
    (h : operation store = .error e store') :
    onStore operation ⟨store, journal⟩ = .error e ⟨store', journal⟩ := by
  simp only [onStore, h]

theorem run_of_ok {operation : StoreM α} {store' : Store} {x : α}
    (h : operation store = .ok x store') :
    onStore (Store.run operation) ⟨store, journal⟩ = .ok x ⟨store', journal⟩ :=
  onStore_of_ok (Store.run_of_ok h)

theorem run_of_error {operation : StoreM α} {store' : Store} {e : DeviceError}
    (h : operation store = .error e store') :
    onStore (Store.run operation) ⟨store, journal⟩ = .error (.device e) ⟨store', journal⟩ :=
  onStore_of_error (Store.explaining_of_error h)

theorem note_eq (entry : Journal → Journal) :
    note entry ⟨store, journal⟩ = .ok () ⟨store, entry journal⟩ := rfl

end Scan

namespace Header

/-- A chunk header that stands at the cursor is read, as whatever `part` it is. -/
theorem record_chunkHeader (part : HeaderPart) (offset : Nat) {code : FourCC} {size : Int64}
    {rest : Bytes} (hbad : store.faults.bad = none)
    (hcontent : store.content.drop store.cursor =
      (ChunkHeader.mk (.ofCode code) size).toBytes ++ rest) :
    ∃ pace, Store.record part offset chunkHeaderSize ChunkHeader.read? store =
      .ok ⟨.ofCode code, size⟩ (store.movedTo (store.cursor + chunkHeaderSize) pace) :=
  Store.record_of_append part offset ChunkHeader.read? hbad hcontent
    (ChunkHeader.length_toBytes _) (by simpa using ChunkHeader.read?_toBytes_append code size [])

/-! ## The file header -/

/-- From the start of a store, the file `header` is read. -/
theorem readFileHeader_eq (hread : store.Readable) {header : FileHeader} {rest : Bytes}
    (hcontent : store.content = header.toBytes ++ rest) :
    ∃ pace, readFileHeader (store.movedTo 0 store.faults.pace) =
      .ok header (store.movedTo fileHeaderSize pace) := by
  have hread₀ := hread.movedTo (Nat.zero_le _) store.faults.pace
  obtain ⟨pace, hrecord⟩ := Store.record_of_append .fileHeader 0 FileHeader.read? hread₀.bad
    hcontent (FileHeader.length_toBytes header)
    (by simpa using FileHeader.read?_toBytes_append header [])
  rw [Store.movedTo_cursor, Nat.zero_add] at hrecord
  exact ⟨pace, hrecord⟩

theorem requireMarker_eq {σ : Type} {header : FileHeader} (h : header.marker = containerMarker)
    (s : σ) : requireMarker header s = .ok () s := by
  rw [requireMarker, if_pos h]
  rfl

theorem requireMarker_of_ne {σ : Type} {header : FileHeader} (h : header.marker ≠ containerMarker)
    (s : σ) : requireMarker header s = .error (.malformedAt (.notCaf header.marker) 0) s := by
  rw [requireMarker, if_neg h]
  rfl

/-- The file `header` of a container is read and recorded. -/
theorem readMarked_eq (journal : Journal) (hread : store.Readable) {header : FileHeader}
    {rest : Bytes} (hcontent : store.content = header.toBytes ++ rest)
    (hmarker : header.marker = containerMarker) :
    ∃ pace, readMarked ⟨store.movedTo 0 store.faults.pace, journal⟩ =
      .ok header ⟨store.movedTo fileHeaderSize pace, journal.noteFileHeader header⟩ := by
  obtain ⟨pace, hfile⟩ := readFileHeader_eq hread hcontent
  refine ⟨pace, ?_⟩
  rw [readMarked, Run.bind_of_ok (Scan.onStore_of_ok hfile), Run.bind_of_ok (Scan.note_eq _),
    Run.bind_of_ok (requireMarker_eq hmarker _)]
  rfl

/-- Where no file header of a container stands at the start, the layout is at fault. -/
theorem readMarked_cases (journal : Journal) (hread : store.Readable) :
    (∃ (header : FileHeader) (rest : Bytes), header.marker = containerMarker ∧
      store.content = header.toBytes ++ rest) ∨
    ∃ cause offset scan, readMarked ⟨store.movedTo 0 store.faults.pace, journal⟩ =
      .error (.malformed cause offset) scan := by
  have hread₀ := hread.movedTo (Nat.zero_le _) store.faults.pace
  rcases Nat.lt_or_ge store.bytes.size fileHeaderSize with hshort | hfits
  · obtain ⟨cursor, pace, herror⟩ := Store.record_of_short .fileHeader 0 FileHeader.read?
      hread₀.bad hshort
    exact .inr ⟨_, _, _, Run.bind_of_error (Scan.onStore_of_error herror)⟩
  obtain ⟨header, rest, hcontent⟩ :=
    FileHeader.exists_toBytes_append (Store.length_content store ▸ hfits)
  by_cases hmarker : header.marker = containerMarker
  · exact .inl ⟨header, rest, hmarker, hcontent⟩
  obtain ⟨pace, hfile⟩ := readFileHeader_eq hread hcontent
  right
  rw [readMarked, Run.bind_of_ok (Scan.onStore_of_ok hfile), Run.bind_of_ok (Scan.note_eq _)]
  exact ⟨_, _, _, Run.bind_of_error (requireMarker_of_ne hmarker _)⟩

/-- Reading starts at the first byte, with the length of the store. -/
theorem read_eq (journal : Journal) (hread : store.Readable) :
    read ⟨store, journal⟩ =
      readParts store.bytes.size ⟨store.movedTo 0 store.faults.pace, journal⟩ := by
  rw [read, Run.bind_of_ok (Scan.run_of_ok hread.length_eq)]
  exact Run.bind_of_ok (Scan.run_of_ok (Store.seekTo_eq hread.seek (Nat.zero_le _)))

/-! ## The description chunk -/

/-- A description chunk whose `header` is large enough for its record is read, and the cursor moves
over what it declares. That need not be there, but the medium has to have such an offset. -/
theorem readDescription_of_record (journal : Journal) (hread : store.Readable)
    {header : ChunkHeader} {d : Description} {rest : Bytes}
    (hdescription : header.kind = .description)
    (hcontent : store.content.drop store.cursor = header.toBytes ++ (d.toBytes ++ rest))
    (hsize : (descriptionSize : Int) ≤ header.size.toInt) :
    (store.cursor + chunkHeaderSize + header.size.toInt.toNat ≤ store.medium.reach →
      ∃ pace, readDescription ⟨store, journal⟩ =
        .ok d ⟨store.movedTo (store.cursor + chunkHeaderSize + header.size.toInt.toNat) pace,
          journal.noteDescription header d⟩) ∧
    (store.medium.reach < store.cursor + chunkHeaderSize + header.size.toInt.toNat →
      ∃ e scan, readDescription ⟨store, journal⟩ = .error e scan) := by
  obtain ⟨kind, size⟩ := header
  subst hdescription
  dsimp only at hcontent hsize ⊢
  have hkind : ChunkKind.description = .ofCode ChunkKind.description.code := by decide
  rw [hkind] at hcontent
  obtain ⟨pace₁, hheader⟩ := record_chunkHeader .descriptionHeader store.cursor hread.bad hcontent
  rw [← hkind] at hheader
  have hread₁ :=
    hread.movedTo_append hcontent (ChunkHeader.length_toBytes _) (by decide) pace₁
  have hdrop := Bytes.drop_add_of_append hcontent (ChunkHeader.length_toBytes _)
  obtain ⟨pace₂, hrecord⟩ := Store.record_of_append .description (store.cursor + chunkHeaderSize)
    Description.read? hread₁.bad hdrop (Description.length_toBytes d)
    (by simpa using Description.read?_toBytes_append d [])
  have hread₂ := hread₁.movedTo_append hdrop (Description.length_toBytes d) (by decide) pace₂
  have hlarge : ¬ size.toInt < (descriptionSize : Int) := by omega
  rw [readDescription, Run.bind_of_ok (Scan.run_of_ok (Store.position_eq hread.seek)),
    Run.bind_of_ok (Scan.onStore_of_ok hheader)]
  simp only [ne_eq, not_true_eq_false, ↓reduceIte, if_neg hlarge]
  rw [Run.bind_of_ok (Scan.onStore_of_ok hrecord), Run.bind_of_ok (Scan.note_eq _)]
  obtain ⟨surplus, hsurplus⟩ : ∃ surplus : Nat, size.toInt = descriptionSize + surplus :=
    ⟨(size.toInt - descriptionSize).toNat, by omega⟩
  -- What the chunk declares beyond its record is passed over, unless it is nothing.
  have hlength : size.toInt.toNat = descriptionSize + surplus := by omega
  have hrest : (size.toInt - (descriptionSize : Int)).toNat = surplus := by omega
  simp only [hrest, hlength, Store.movedTo_cursor, Store.movedTo_movedTo, ← Nat.add_assoc]
    at hread₂ ⊢
  by_cases hnone : surplus = 0
  · simp only [hnone, not_true_eq_false, ↓reduceIte, Nat.add_zero]
    refine ⟨fun _ => ⟨pace₂, rfl⟩, fun hfar => ?_⟩
    exact absurd hread₂.cursor (Nat.not_le.2 hfar)
  · simp only [hnone, not_false_eq_true, ↓reduceIte]
    constructor
    · intro hreach
      have hseek := Store.seekBy_eq hread₂.seek hreach
      rw [Run.bind_of_ok (Scan.run_of_ok hseek)]
      exact ⟨pace₂, rfl⟩
    · intro hfar
      have hbeyond : (store.movedTo (store.cursor + chunkHeaderSize + descriptionSize)
          pace₂).medium.reach < _ := hfar
      obtain ⟨e, hseek⟩ := Store.seekTo_of_far hbeyond
      exact ⟨_, _, Run.bind_of_error (Scan.run_of_error hseek)⟩

/-- The cursor moves over what the `header` of a description chunk declares. -/
theorem readDescription_eq (journal : Journal) (hread : store.Readable) {header : ChunkHeader}
    {d : Description} {rest : Bytes} (hdescription : header.kind = .description)
    (hcontent : store.content.drop store.cursor = header.toBytes ++ (d.toBytes ++ rest))
    (hsize : (descriptionSize : Int) ≤ header.size.toInt)
    (hreach : store.cursor + chunkHeaderSize + header.size.toInt.toNat ≤ store.medium.reach) :
    ∃ pace, readDescription ⟨store, journal⟩ =
      .ok d ⟨store.movedTo (store.cursor + chunkHeaderSize + header.size.toInt.toNat) pace,
        journal.noteDescription header d⟩ :=
  (readDescription_of_record journal hread hdescription hcontent hsize).1 hreach

/-- Where no description chunk with a record stands at the cursor, the layout is at fault. -/
theorem readDescription_cases (journal : Journal) (hread : store.Readable) :
    (∃ header : ChunkHeader, ∃ d : Description, ∃ rest, header.kind = .description ∧
      (descriptionSize : Int) ≤ header.size.toInt ∧
      store.content.drop store.cursor = header.toBytes ++ (d.toBytes ++ rest)) ∨
    ∃ cause offset scan,
      readDescription ⟨store, journal⟩ = .error (.malformed cause offset) scan := by
  have hlength : (store.content.drop store.cursor).length = store.bytes.size - store.cursor := by
    rw [List.length_drop, Store.length_content]
  rw [readDescription, Run.bind_of_ok (Scan.run_of_ok (Store.position_eq hread.seek))]
  by_cases hfits : chunkHeaderSize ≤ store.bytes.size - store.cursor
  case neg =>
    obtain ⟨cursor, pace, hshort⟩ := Store.record_of_short .descriptionHeader store.cursor
      ChunkHeader.read? hread.bad (Nat.lt_of_not_le hfits)
    exact .inr ⟨_, _, _, Run.bind_of_error (Scan.onStore_of_error hshort)⟩
  -- Any twelve bytes are a chunk header, which may be of the wrong type or declare too little.
  obtain ⟨code, size, rest, hcontent⟩ := ChunkHeader.exists_toBytes_append (hlength ▸ hfits)
  obtain ⟨pace, hheader⟩ := record_chunkHeader .descriptionHeader store.cursor hread.bad hcontent
  have hread₁ := hread.movedTo_append hcontent (ChunkHeader.length_toBytes _) (by decide) pace
  rw [Run.bind_of_ok (Scan.onStore_of_ok hheader)]
  by_cases hkind : ChunkKind.ofCode code = .description
  case neg =>
    simp only [ne_eq, hkind, not_false_eq_true, ↓reduceIte]
    exact .inr ⟨_, _, _, Run.bind_of_error rfl⟩
  rw [hkind] at hcontent
  simp only [ne_eq, hkind, not_true_eq_false, ↓reduceIte]
  by_cases hlarge : (descriptionSize : Int) ≤ size.toInt
  case neg =>
    simp only [if_pos (Int.lt_of_not_ge hlarge)]
    rw [Run.bind_of_ok (Scan.note_eq _)]
    exact .inr ⟨_, _, _, Run.bind_of_error rfl⟩
  simp only [if_neg (Int.not_lt.2 hlarge)]
  by_cases hrecord : descriptionSize ≤ rest.length
  case neg =>
    have hshort : store.bytes.size - (store.cursor + chunkHeaderSize) < descriptionSize := by
      rw [hcontent, List.length_append, ChunkHeader.length_toBytes] at hlength
      omega
    obtain ⟨cursor, pace', hshort⟩ := Store.record_of_short .description
      (store.cursor + chunkHeaderSize) Description.read? hread₁.bad hshort
    exact .inr ⟨_, _, _, Run.bind_of_error (Scan.onStore_of_error hshort)⟩
  obtain ⟨d, rest, rfl⟩ := Description.exists_toBytes_append hrecord
  exact .inl ⟨⟨.description, size⟩, d, rest, rfl, hlarge, hcontent⟩

/-! ## The chunks up to the samples -/

/-- A chunk header that stands at the cursor is the next one. -/
theorem nextChunk_eq (journal : Journal) (hread : store.Readable) {code : FourCC} {size : Int64}
    {rest : Bytes}
    (hcontent : store.content.drop store.cursor =
      (ChunkHeader.mk (.ofCode code) size).toBytes ++ rest) :
    ∃ pace, nextChunk store.bytes.size ⟨store, journal⟩ =
      .ok (⟨.ofCode code, size⟩, store.cursor)
        ⟨store.movedTo (store.cursor + chunkHeaderSize) pace, journal⟩ := by
  have hlength : store.bytes.size - store.cursor = chunkHeaderSize + rest.length := by
    rw [← Store.length_content, ← List.length_drop, hcontent, List.length_append,
      ChunkHeader.length_toBytes]
  have hfits : ¬ store.bytes.size < store.cursor + chunkHeaderSize := by
    simp only [chunkHeaderSize] at hlength ⊢
    omega
  obtain ⟨pace, hheader⟩ := record_chunkHeader .chunkHeader store.cursor hread.bad hcontent
  rw [nextChunk, Run.bind_of_ok (Scan.run_of_ok (Store.position_eq hread.seek))]
  simp only [if_neg hfits]
  rw [Run.bind_of_ok (Scan.onStore_of_ok hheader)]
  exact ⟨pace, rfl⟩

/-- Where no chunk header fits in front of the end, the samples are missing. -/
theorem nextChunk_of_short (journal : Journal) (hread : store.Readable)
    (hshort : store.bytes.size < store.cursor + chunkHeaderSize) :
    ∃ scan, nextChunk store.bytes.size ⟨store, journal⟩ =
      .error (.malformedAt .noDataChunk store.cursor) scan := by
  rw [nextChunk, Run.bind_of_ok (Scan.run_of_ok (Store.position_eq hread.seek))]
  simp only [if_pos hshort]
  rw [Run.bind_of_ok (Scan.note_eq _)]
  exact ⟨_, Run.bind_of_error rfl⟩

/-- The payload of a chunk is passed over by the size in its `header`, whether it is there or not.
-/
theorem passOver_eq (journal : Journal) (hread : store.Readable) (header : ChunkHeader)
    (position : Nat) (hsize : 0 ≤ header.size.toInt)
    (hreach : store.cursor + header.size.toInt.toNat ≤ store.medium.reach) :
    passOver header position ⟨store, journal⟩ =
      .ok () ⟨store.movedTo (store.cursor + header.size.toInt.toNat) store.faults.pace,
        journal.notePassedChunk header⟩ := by
  have hneg : ¬ header.size < 0 := by
    rw [Int64.lt_iff_toInt_lt]
    exact Int.not_lt.2 hsize
  have hpass : passPayload header position store =
      .ok () (store.movedTo (store.cursor + header.size.toInt.toNat) store.faults.pace) := by
    rw [passPayload, if_neg hneg]
    exact Store.run_of_ok (Store.seekBy_eq hread.seek hreach)
  rw [passOver, Run.bind_of_ok (Scan.note_eq _)]
  exact Scan.onStore_of_ok hpass

/-- A chunk is not passed over where the medium has no offset behind it. -/
theorem passOver_of_far (journal : Journal) (header : ChunkHeader) (position : Nat)
    (hsize : 0 ≤ header.size.toInt)
    (hfar : store.medium.reach < store.cursor + header.size.toInt.toNat) :
    ∃ e scan, passOver header position ⟨store, journal⟩ = .error e scan := by
  have hneg : ¬ header.size < 0 := by
    rw [Int64.lt_iff_toInt_lt]
    exact Int.not_lt.2 hsize
  obtain ⟨e, hseek⟩ := Store.seekTo_of_far hfar
  have hpass : passPayload header position store = .error (.device e) store := by
    rw [passPayload, if_neg hneg]
    exact Store.explaining_of_error hseek
  rw [passOver, Run.bind_of_ok (Scan.note_eq _)]
  exact ⟨_, _, Scan.onStore_of_error hpass⟩

/-- A chunk of negative size is not passed over. -/
theorem passOver_of_neg {header : ChunkHeader} (position : Nat) (hsize : header.size.toInt < 0) :
    passOver header position ⟨store, journal⟩ =
      .error (.malformedAt (.negativeSize header.kind header.size) position)
        ⟨store, journal.notePassedChunk header⟩ := by
  have hneg : header.size < 0 := by
    rw [Int64.lt_iff_toInt_lt]
    exact hsize
  have hpass : passPayload header position store =
      .error (.malformedAt (.negativeSize header.kind header.size) position) store := by
    rw [passPayload, if_pos hneg]
    rfl
  rw [passOver, Run.bind_of_ok (Scan.note_eq _)]
  exact Scan.onStore_of_error hpass

/-- The data chunk is entered behind its edit count, which is `count`. -/
theorem enterData_eq (journal : Journal) (hread : store.Readable) (header : ChunkHeader)
    (position : Nat) {count : UInt32} {rest : Bytes}
    (hcontent : store.content.drop store.cursor = Field.be32 count ++ rest) :
    ∃ pace, enterData header position ⟨store, journal⟩ =
      .ok (store.cursor + editCountSize) ⟨store.movedTo (store.cursor + editCountSize) pace,
        (journal.noteChunk header).noteEditCount count⟩ := by
  have hwidth : (Field.be32 count).length = editCountSize := Field.length_be count
  obtain ⟨pace, hcount⟩ := Store.record_of_append .editCount position Field.be32? hread.bad hcontent
    hwidth (by simpa using Field.be?_append count [])
  have hread₁ := hread.movedTo_append hcontent hwidth (by decide) pace
  have hposition := Store.position_eq hread₁.seek
  rw [enterData, Run.bind_of_ok (Scan.note_eq _), Run.bind_of_ok (Scan.onStore_of_ok hcount),
    Run.bind_of_ok (Scan.note_eq _)]
  exact ⟨pace, Scan.run_of_ok hposition⟩

/-- A data chunk without an edit count is cut off. -/
theorem enterData_of_short (journal : Journal) (hread : store.Readable) (header : ChunkHeader)
    (position : Nat) (hshort : store.bytes.size - store.cursor < editCountSize) :
    ∃ scan, enterData header position ⟨store, journal⟩ =
      .error (.malformedAt (.truncated .editCount) position) scan := by
  obtain ⟨cursor, pace, hcount⟩ := Store.record_of_short .editCount position Field.be32? hread.bad
    hshort
  rw [enterData, Run.bind_of_ok (Scan.note_eq _),
    Run.bind_of_error (Scan.onStore_of_error hcount)]
  exact ⟨_, rfl⟩

variable {fileLength position : Nat} {header : ChunkHeader} {scan scan' scan'' : Scan} {e : Error}

theorem findData_of_error (h : nextChunk fileLength scan = .error e scan') :
    findData fileLength scan = .error e scan' := by
  rw [findData_eq, h]

theorem findData_of_data (h : nextChunk fileLength scan = .ok (header, position) scan')
    (hkind : header.kind = .data) :
    findData fileLength scan = enterData header position scan' := by
  rw [findData_eq, h]
  exact if_pos hkind

theorem findData_of_pass (h : nextChunk fileLength scan = .ok (header, position) scan')
    (hkind : header.kind ≠ .data) (hpass : passOver header position scan' = .ok () scan'') :
    findData fileLength scan = findData fileLength scan'' := by
  rw [findData_eq, h]
  simp only [if_neg hkind, hpass]

theorem findData_of_pass_error (h : nextChunk fileLength scan = .ok (header, position) scan')
    (hkind : header.kind ≠ .data) (hpass : passOver header position scan' = .error e scan'') :
    findData fileLength scan = .error e scan'' := by
  rw [findData_eq, h]
  simp only [if_neg hkind, hpass]

/-- The run of a search through a store with a journal has come to what the search comes to. -/
def Search.Answers : Search → Store → Journal → EStateM.Result Error Scan Nat → Prop
  | found start entry, store, journal, result =>
    ∃ pace, result = .ok start ⟨store.movedTo start pace, entry journal⟩
  | malformed cause offset, _, _, result => ∃ scan, result = .error (.malformedAt cause offset) scan
  | lost, _, _, result => ∃ e scan, result = .error e scan

/-- What the search behind a chunk with this `header` has come to is what all of it has come to. -/
theorem Search.Answers.behind {result : Search} {cursor : Nat} {pace : List Turn}
    {answer : EStateM.Result Error Scan Nat}
    (h : result.Answers (store.movedTo cursor pace) (journal.notePassedChunk header) answer) :
    (result.behind header).Answers store journal answer := by
  cases result <;> exact h

/-- At the header of a data chunk the edit count is read, or it is cut off. -/
theorem findData_at_data (journal : Journal) (hread : store.Readable) {code : FourCC}
    {size : Int64} {rest : Bytes} (hkind : ChunkKind.ofCode code = .data)
    (hheader : store.content.drop store.cursor =
      (ChunkHeader.mk (.ofCode code) size).toBytes ++ rest) :
    (search store.content store.medium.reach store.cursor).Answers store journal
      (findData store.bytes.size ⟨store, journal⟩) := by
  obtain ⟨pace, hnext⟩ := nextChunk_eq journal hread hheader
  have hread₁ := hread.movedTo_append hheader (ChunkHeader.length_toBytes _) (by decide) pace
  have hdrop := Bytes.drop_add_of_append hheader (ChunkHeader.length_toBytes _)
  rw [findData_of_data hnext hkind]
  rcases search_of_data store.medium.reach hheader hkind with
    ⟨edits, samples, rfl, hsearch⟩ | ⟨hshort, hsearch⟩
  · obtain ⟨pace', henter⟩ := enterData_eq journal hread₁ ⟨.ofCode code, size⟩ store.cursor hdrop
    rw [hsearch, henter]
    exact ⟨pace', by rw [Store.movedTo_cursor, Store.movedTo_movedTo, Nat.add_assoc]⟩
  · rw [← hdrop, List.length_drop, Store.length_content] at hshort
    obtain ⟨scan, henter⟩ := enterData_of_short journal hread₁ ⟨.ofCode code, size⟩ store.cursor
      hshort
    rw [hsearch, henter]
    exact ⟨scan, rfl⟩

/-- On a store without faults, looking for the samples with `findData` is the `search` through its
bytes. -/
theorem findData_of_search (journal : Journal) (hread : store.Readable) :
    (search store.content store.medium.reach store.cursor).Answers store journal
      (findData store.bytes.size ⟨store, journal⟩) := by
  generalize hbytes : store.content = bytes
  generalize hoffset : store.cursor = offset
  induction offset using ChunkHeader.induction bytes generalizing store journal with
  | short offset hshort =>
    rw [search_of_short hshort]
    rw [← hbytes, Store.length_content, ← hoffset] at hshort
    obtain ⟨scan, hnext⟩ := nextChunk_of_short journal hread hshort
    rw [findData_of_error hnext, hoffset]
    exact ⟨scan, rfl⟩
  | last offset code size rest hheader hneg =>
    subst hbytes hoffset
    by_cases hkind : ChunkKind.ofCode code = .data
    · exact findData_at_data journal hread hkind hheader
    obtain ⟨pace, hnext⟩ := nextChunk_eq journal hread hheader
    rw [search_of_header hheader, if_neg hkind, if_pos hneg]
    rw [Int64.lt_iff_toInt_lt] at hneg
    exact ⟨_, findData_of_pass_error hnext hkind (passOver_of_neg _ hneg)⟩
  | step offset code size rest hheader hneg ih =>
    subst hbytes hoffset
    by_cases hkind : ChunkKind.ofCode code = .data
    · exact findData_at_data journal hread hkind hheader
    obtain ⟨pace, hnext⟩ := nextChunk_eq journal hread hheader
    have hread₁ := hread.movedTo_append hheader (ChunkHeader.length_toBytes _) (by decide) pace
    rw [search_of_header hheader, if_neg hkind, if_neg hneg]
    rw [Int64.lt_iff_toInt_lt, Int.not_lt] at hneg
    -- The payload need not be there, but the medium has to have its end.
    split
    case isTrue hreach =>
      rw [← Nat.add_assoc] at hreach
      have hpass := passOver_eq journal hread₁ ⟨.ofCode code, size⟩ store.cursor hneg hreach
      rw [Store.movedTo_cursor, Store.movedTo_movedTo] at hpass
      rw [findData_of_pass hnext hkind hpass]
      have hrest := ih (journal.notePassedChunk ⟨.ofCode code, size⟩)
        (hread.movedTo hreach (store.movedTo (store.cursor + chunkHeaderSize) pace).faults.pace) rfl
        (Nat.add_assoc ..)
      exact hrest.behind
    case isFalse hfar =>
      have hbeyond : (store.movedTo (store.cursor + chunkHeaderSize) pace).medium.reach <
          store.cursor + chunkHeaderSize + size.toInt.toNat := by
        rw [Nat.add_assoc]
        exact Nat.lt_of_not_le hfar
      obtain ⟨e, scan, hpass⟩ :=
        passOver_of_far journal ⟨.ofCode code, size⟩ store.cursor hneg hbeyond
      exact ⟨e, scan, findData_of_pass_error hnext hkind hpass⟩

/-- From `body` the samples are found, and the journal has what there is to record. -/
theorem findData_of_body (journal : Journal) (hread : store.Readable) (body : Layout.Body)
    (hbody : store.content.drop store.cursor = body.toBytes) :
    ∃ pace, findData store.bytes.size ⟨store, journal⟩ =
      .ok (store.cursor + body.lead)
        ⟨store.movedTo (store.cursor + body.lead) pace, body.note journal⟩ := by
  have hanswers := findData_of_search journal hread
  rwa [search_of_body body hbody (Store.length_content store ▸ hread.size)] at hanswers

/-- Where no body stands at the cursor, no samples are found. The layout is at fault, unless the
medium lacks an offset that is declared. -/
theorem findData_cases (journal : Journal) (hread : store.Readable) :
    (∃ body : Layout.Body, store.content.drop store.cursor = body.toBytes) ∨
    ∃ e scan, findData store.bytes.size ⟨store, journal⟩ = .error e scan ∧
      (2 ^ 64 - 1 ≤ store.medium.reach → store.bytes.size < 2 ^ 63 →
        ∃ cause offset, e = .malformed cause offset) := by
  have hanswers := findData_of_search journal hread
  cases hsearch : search store.content store.medium.reach store.cursor with
  | found start entry => exact .inl (exists_body_of_search hsearch)
  | malformed cause offset =>
    rw [hsearch] at hanswers
    obtain ⟨scan, herror⟩ := hanswers
    exact .inr ⟨_, scan, herror, fun _ _ => ⟨_, _, rfl⟩⟩
  | lost =>
    rw [hsearch] at hanswers
    obtain ⟨e, scan, herror⟩ := hanswers
    refine .inr ⟨e, scan, herror, fun hreach hsize => ?_⟩
    exact absurd hsearch (search_ne_lost hreach (Store.length_content store ▸ hsize))

end Header

end Caf
