import Caf.Proofs.Container.Appending
import Caf.Proofs.Container.Observing

/-!
# When a stream is not continued

A stream is not continued where its container cannot be opened, or where its samples do not start
right behind a header of the size that is written here. In an empty store it is a new stream, and
the request decides. All of this is found out before anything is written, so that a store that is
refused has the bytes that it had.

## Main definitions

* `Bytes.Compact`: a container without anything in front of its samples that could be left out.

## Main results

* `Layout.compact_iff`: what the bytes say about the place of the samples;
* `Writer.append_eq_error_iff`: what is refused, with which error, and that nothing is written.
-/

namespace Caf

/-! ## Containers without anything that could be left out -/

/-- Nothing stands in front of the samples in `bytes` that could be left out: the description chunk
declares its record and no more, and the data chunk is the next one. -/
structure Bytes.Compact (bytes : Bytes) : Prop where
  /-- The chunk behind the file header is a description of the size of the record. -/
  description : ∃ rest, ChunkHeader.read? (bytes.drop fileHeaderSize) =
    some (⟨.description, Int64.ofNat descriptionSize⟩, rest)
  /-- The chunk behind such a description is the data chunk. -/
  data : ∃ declared rest,
    ChunkHeader.read? (bytes.drop (fileHeaderSize + chunkHeaderSize + descriptionSize)) =
      some (⟨.data, declared⟩, rest)

/-- No chunk is without a length. -/
theorem Chunk.lengths_eq_zero_iff {chunks : List Chunk} : lengths chunks = 0 ↔ chunks = [] := by
  cases chunks with
  | nil => simp [lengths]
  | cons chunk chunks => simp [lengths, length, chunkHeaderSize]

namespace Layout

/-- The first chunk of `body` is the data chunk when no other stands in front of it. -/
theorem Body.read?_toBytes (body : Body) :
    ∃ header rest, ChunkHeader.read? body.toBytes = some (header, rest) ∧
      (header.kind = .data ↔ body.passed = []) := by
  rw [Body.toBytes_eq]
  cases hpassed : body.passed with
  | nil =>
    exact ⟨⟨.data, body.declared⟩, _,
      ChunkHeader.read?_toBytes_append ChunkKind.data.code body.declared _, by simp⟩
  | cons chunk passed =>
    have hother : chunk.code ≠ ChunkKind.data.code :=
      body.passed_ne chunk (hpassed ▸ List.mem_cons_self)
    rw [List.flatMap_cons, Chunk.toBytes_eq, List.append_assoc, List.append_assoc]
    refine ⟨chunk.header, _, ChunkHeader.read?_toBytes_append chunk.code _ _, ?_⟩
    have hkind : chunk.header.kind ≠ .data := mt ChunkKind.ofCode_eq_data_iff.1 hother
    simp [hkind]

variable (l : Layout)

/-- The chunk behind the file header is the description. -/
theorem read?_description :
    ∃ rest, ChunkHeader.read? (l.toBytes.drop fileHeaderSize) =
      some (l.descriptionHeader, rest) := by
  rw [toBytes_eq, List.drop_left' (FileHeader.length_toBytes _)]
  exact ⟨_, ChunkHeader.read?_toBytes_append ChunkKind.description.code _ _⟩

theorem descriptionHeader_eq_iff :
    l.descriptionHeader = ⟨.description, Int64.ofNat descriptionSize⟩ ↔ l.surplus = [] := by
  constructor
  · intro h
    -- The size that is declared counts the surplus, too.
    have hsize := l.toInt_descriptionHeader_size
    rw [h, Int64.toInt_ofNat_of_lt (by decide)] at hsize
    rw [← List.length_eq_zero_iff]
    omega
  · intro h
    rw [descriptionHeader, h, List.length_nil, Nat.add_zero]

/-- Samples start at `headerSize` when nothing else stands in front of them. -/
theorem start_eq_headerSize_iff : l.start = headerSize ↔ l.surplus = [] ∧ l.body.passed = [] := by
  rw [← List.length_eq_zero_iff, ← Chunk.lengths_eq_zero_iff, start_eq]
  simp only [headerSize, fileHeaderSize, chunkHeaderSize, descriptionSize, editCountSize]
  omega

/-- That nothing else stands in front of the samples can be seen in two chunk headers, as
`Bytes.Compact` says. -/
theorem compact_iff : Bytes.Compact l.toBytes ↔ l.surplus = [] ∧ l.body.passed = [] := by
  obtain ⟨rest, hdescription⟩ := l.read?_description
  obtain ⟨header, rest', hfirst, hkind⟩ := l.body.read?_toBytes
  -- Only behind a description that has its record alone is the next chunk where it is looked for.
  have hbehind : l.surplus = [] →
      ChunkHeader.read? (l.toBytes.drop (fileHeaderSize + chunkHeaderSize + descriptionSize)) =
        some (header, rest') := by
    intro hsurplus
    have hstart := l.drop_bodyStart
    rw [bodyStart, hsurplus, List.length_nil, Nat.add_zero] at hstart
    rw [hstart, hfirst]
  constructor
  · rintro ⟨⟨_, hrecord⟩, declared, _, hdata⟩
    rw [hdescription] at hrecord
    have hsurplus : l.surplus = [] :=
      l.descriptionHeader_eq_iff.1 (congrArg Prod.fst (Option.some.inj hrecord))
    rw [hbehind hsurplus] at hdata
    have hheader : header = ⟨.data, declared⟩ := congrArg Prod.fst (Option.some.inj hdata)
    exact ⟨hsurplus, hkind.1 (by rw [hheader])⟩
  · rintro ⟨hsurplus, hpassed⟩
    have hdata : header.kind = .data := hkind.2 hpassed
    refine ⟨⟨rest, ?_⟩, header.size, rest', ?_⟩
    · rw [hdescription, l.descriptionHeader_eq_iff.2 hsurplus]
    · rw [hbehind hsurplus, ← hdata]

end Layout

/-- The samples of a container that has been opened by `reader` start where they do here when the
container has nothing that could be left out. -/
theorem Reader.offset_eq_headerSize_iff {store opened : Store} {reader : Reader}
    (hread : store.Readable) (hopen : ofStore store = .ok reader opened) :
    reader.region.offset = headerSize ↔ Bytes.Compact store.content := by
  obtain ⟨l, rate, encoding, pace, hcontent, -, rfl, -⟩ := layout_of_ofStore hread hopen
  rw [hcontent, l.compact_iff]
  exact l.start_eq_headerSize_iff

/-! ## Refusals -/

theorem Stream.requested_of_error {request : StreamRequest} {e : Error}
    (h : request.check = .error e) : requested request = .error e := by
  rw [requested, h]
  rfl

namespace Writer

variable {request : StreamRequest} {store left : Store} {reader : Reader} {e : Error}

/-- A `request` that does not pass its checks starts nothing. -/
theorem create_of_refused (h : request.check = .error e) (store : Store) :
    create request store = .error e store := by
  rw [create, Stream.requested_of_error h]

/-- In a `store` that takes a header, a new stream depends on the request alone. -/
theorem create_eq_error_iff (hempty : store.bytes.size = 0) (hwritable : store.Open) :
    create request store = .error e left ↔ request.check = .error e ∧ left = store := by
  cases hcheck : request.check with
  | error cause =>
    rw [create_of_refused hcheck]
    simp [eq_comm]
  | ok _ =>
    obtain ⟨writer, hcreate, -⟩ :=
      create_holds hcheck hempty hwritable.cursor hwritable.accepting (Nat.le_refl _)
    simp [hcreate]

/-- In an empty store there is no stream to continue. -/
theorem append_of_empty (request : StreamRequest) (hread : store.Readable)
    (hempty : store.bytes.size = 0) : append request store = create request store := by
  rw [append, Store.run_of_ok hread.length_eq, hempty]
  rfl

section Existing

variable (request) (hread : store.Readable) (hne : store.bytes.size ≠ 0)
include hread hne

/-- What stands in `store` has to be opened before it is continued. -/
theorem append_of_unopened (h : Reader.ofStore store = .error e left) :
    append request store = .error e left := by
  obtain ⟨n, hn⟩ := Nat.exists_eq_succ_of_ne_zero hne
  obtain ⟨scan, hheader, rfl⟩ := Reader.ofStore_eq_error_iff.1 h
  rw [append, Store.run_of_ok hread.length_eq, hn]
  simp only [hheader]

/-- A stream whose samples do not start at `headerSize` is not continued. -/
theorem append_of_displaced (h : Reader.ofStore store = .ok reader left)
    (hoffset : reader.region.offset ≠ headerSize) :
    append request store =
      .error (.unsupported (.appendAt reader.region.offset headerSize)) left := by
  obtain ⟨n, hn⟩ := Nat.exists_eq_succ_of_ne_zero hne
  obtain ⟨header, scan, hheader, rfl, rfl⟩ := Reader.ofStore_eq_ok_iff.1 h
  rw [append, Store.run_of_ok hread.length_eq, hn]
  simp only [hheader]
  exact if_pos hoffset

/-- What is not continued cannot be opened, or has its samples somewhere else. -/
theorem append_eq_error_iff_of_ne (hwritable : store.Open) :
    append request store = .error e left ↔
      Reader.ofStore store = .error e left ∨
      ∃ reader, Reader.ofStore store = .ok reader left ∧ reader.region.offset ≠ headerSize ∧
        e = .unsupported (.appendAt reader.region.offset headerSize) := by
  cases hopen : Reader.ofStore store with
  | error cause opened =>
    rw [append_of_unopened request hread hne hopen]
    simp
  | ok reader opened =>
    by_cases hoffset : reader.region.offset = headerSize
    -- A stream whose samples start where they do here is continued, so that nothing is refused.
    case pos =>
      obtain ⟨writer, happend, -⟩ := append_holds request hread hwritable hopen hoffset
      rw [happend]
      simp [hoffset]
    case neg =>
      rw [append_of_displaced request hread hne hopen hoffset]
      constructor
      · intro h
        cases h
        exact .inr ⟨reader, rfl, hoffset, rfl⟩
      · rintro (h | ⟨_, h, -, rfl⟩)
        · cases h
        · cases h
          rfl

end Existing

/-- What `append` refuses is still as it was. -/
theorem bytes_of_append_error (hread : store.Readable) (hwritable : store.Open)
    (h : append request store = .error e left) : left.bytes = store.bytes := by
  by_cases hempty : store.bytes.size = 0
  case pos =>
    rw [append_of_empty request hread hempty] at h
    rw [((create_eq_error_iff hempty hwritable).1 h).2]
  case neg =>
    -- Nothing but opening has touched the store.
    apply Store.bytes_eq_of_still
    rcases (append_eq_error_iff_of_ne request hread hempty hwritable).1 h with
      hopen | ⟨reader, hopen, -, -⟩
    · exact Reader.keeps_ofStore.of_error hopen
    · exact Reader.keeps_ofStore.of_ok hopen

/-- What `append` refuses, and how. An empty `store` is refused only for the `request`. In every
other store the request does not matter: what cannot be opened is refused for the same reason, and
what can be opened is refused only where its samples do not start right behind a header of the size
that is written here. They start there when the description chunk has its record alone and the data
chunk is the next one. Whatever is refused has the bytes that it had. -/
theorem append_eq_error_iff (request : StreamRequest) (hread : store.Readable)
    (hwritable : store.Open) :
    (store.bytes.size = 0 → ∀ e left, append request store = .error e left ↔
      request.check = .error e ∧ left = store) ∧
    (store.bytes.size ≠ 0 → ∀ e left, append request store = .error e left ↔
      Reader.ofStore store = .error e left ∨
      ∃ reader, Reader.ofStore store = .ok reader left ∧ reader.region.offset ≠ headerSize ∧
        e = .unsupported (.appendAt reader.region.offset headerSize)) ∧
    (∀ reader opened, Reader.ofStore store = .ok reader opened →
      (reader.region.offset = headerSize ↔ Bytes.Compact store.content)) ∧
    ∀ e left, append request store = .error e left → left.bytes = store.bytes := by
  refine ⟨?_, ?_, ?_, ?_⟩
  · intro hempty e left
    rw [append_of_empty request hread hempty]
    exact create_eq_error_iff hempty hwritable
  · intro hne e left
    exact append_eq_error_iff_of_ne request hread hne hwritable
  · intro reader opened hopen
    exact Reader.offset_eq_headerSize_iff hread hopen
  · intro e left h
    exact bytes_of_append_error hread hwritable h

/-- A container with a chunk in front of its samples is opened and not continued, and keeps its
bytes. -/
theorem append_eq_error_of_free :
    ∃ (l : Layout) (store left : Store), store.content = l.toBytes ∧ store.cursor = 5 ∧
      l.surplus = [] ∧ ¬ Bytes.Compact store.content ∧
      append (.mono .pcm16 0) store = .error (.unsupported (.appendAt 82 68)) left ∧
      left.bytes = store.bytes := by
  let description : Description :=
    ⟨⟨0x40E5888000000000⟩, Description.lpcm, 0, 2, 1, 1, 16⟩
  let l : Layout := ⟨1, 0, description, [],
    ⟨[⟨.ofChars 'f' 'r' 'e' 'e', [1, 2], by decide⟩], -1, 0, [7, 8], by decide⟩, by decide⟩
  let memory : Store := { bytes := ⟨l.toBytes.toArray⟩ }
  let store := memory.movedTo 5 []
  have hlength : memory.bytes.size = 84 := l.length_toBytes
  have hsmall : memory.bytes.size < 2 ^ 64 := Nat.lt_of_le_of_lt (Nat.le_of_eq hlength) (by decide)
  have hread : store.Readable := (Store.Readable.of_memory _ hsmall).movedTo (by decide) []
  have haccepting : store.Accepting 84 :=
    (Store.Accepting.of_memory _ (by decide)).of_alike (.movedTo ..)
  have hwritable : store.Open := hread.opens haccepting (by decide) (Nat.le_of_eq hlength)
  have hdescribes : l.description.Describes 44100 .pcm16 := ⟨by decide, by decide, by decide⟩
  obtain ⟨pace, hopen⟩ := Reader.ofStore_of_describes hread rfl hdescribes
  have hne : store.bytes.size ≠ 0 := fun hzero => absurd (hlength.symm.trans hzero) (by decide)
  obtain ⟨-, hrefused, hplace, hkept⟩ := append_eq_error_iff (.mono .pcm16 0) hread hwritable
  have hoffset : (l.reader 44100 .pcm16).region.offset ≠ headerSize := by decide
  have happend := (hrefused hne _ _).2 (.inr ⟨_, hopen, hoffset, rfl⟩)
  exact ⟨l, store, _, rfl, rfl, rfl, mt (hplace _ _ hopen).2 hoffset, happend, hkept _ _ happend⟩

end Writer

end Caf
