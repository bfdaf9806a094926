import Caf.Proofs.Container.Layout

/-!
# Where the samples are

The bytes alone tell what a search for the samples comes to. From an offset on, chunk after chunk is
passed over by the size that its header declares, up to the first data chunk. `Header.search` does
this without a store; all that it has to know of a medium is the last offset that it has. The
samples are found exactly where the bytes from the offset on are a body.

## Main definitions

* `Header.Search`: what a search comes to;
* `Header.search`: the search through some bytes.

## Main results

* `Header.search_of_header`: one step of the search;
* `Header.search_of_body`, `Header.exists_body_of_search`: what is found is the start of a body's
  samples.
-/

namespace Caf.Header

/-- What a search for the samples comes to. -/
inductive Search where
  /-- The samples start at `start`, and `entry` is what is recorded on the way. -/
  | found (start : Nat) (entry : Journal → Journal)
  /-- The chunk at `offset` is at fault. -/
  | malformed (cause : Malformed) (offset : Nat)
  /-- The medium has no offset where a chunk ends. -/
  | lost

/-- A chunk that is passed over is recorded by its `header` in front of what is found behind it. -/
def Search.behind (header : ChunkHeader) : Search → Search
  | found start entry => found start fun journal => entry (journal.notePassedChunk header)
  | malformed cause offset => malformed cause offset
  | lost => lost

/-- The search for the samples through `bytes`, from `offset` on, on a medium whose last offset is
`reach`. -/
def search (bytes : Bytes) (reach offset : Nat) : Search :=
  if offset + chunkHeaderSize ≤ bytes.length then
    match ChunkHeader.read? (bytes.drop offset) with
    | none => .malformed .noDataChunk offset
    | some (header, rest) =>
      if header.kind = .data then
        match Field.be32? rest with
        | none => .malformed (.truncated .editCount) offset
        | some (count, _) =>
          .found (offset + (chunkHeaderSize + editCountSize)) fun journal =>
            (journal.noteChunk header).noteEditCount count
      else if header.size < 0 then .malformed (.negativeSize header.kind header.size) offset
      else if offset + (chunkHeaderSize + header.size.toInt.toNat) ≤ reach then
        (search bytes reach (offset + (chunkHeaderSize + header.size.toInt.toNat))).behind header
      else .lost
  else .malformed .noDataChunk offset
termination_by bytes.length - offset
decreasing_by
  simp only [chunkHeaderSize] at *
  omega

variable {bytes : Bytes} {reach offset : Nat} {code : FourCC} {size : Int64} {rest : Bytes}

/-- The search ends where there is no room for a header at `offset`. -/
theorem search_of_short (h : bytes.length < offset + chunkHeaderSize) :
    search bytes reach offset = .malformed .noDataChunk offset := by
  rw [search, if_neg (Nat.not_le.2 h)]

/-- At the header of a data chunk the samples are found, and any other chunk is passed over. -/
theorem search_of_header
    (h : bytes.drop offset = (ChunkHeader.mk (.ofCode code) size).toBytes ++ rest) :
    search bytes reach offset =
      if ChunkKind.ofCode code = .data then
        match Field.be32? rest with
        | none => .malformed (.truncated .editCount) offset
        | some (count, _) =>
          .found (offset + (chunkHeaderSize + editCountSize)) fun journal =>
            (journal.noteChunk ⟨.ofCode code, size⟩).noteEditCount count
      else if size < 0 then .malformed (.negativeSize (.ofCode code) size) offset
      else if offset + (chunkHeaderSize + size.toInt.toNat) ≤ reach then
        (search bytes reach (offset + (chunkHeaderSize + size.toInt.toNat))).behind
          ⟨.ofCode code, size⟩
      else .lost := by
  have hfits := Bytes.add_length_le_of_drop h (ChunkHeader.length_toBytes _) (by decide)
  rw [search, if_pos hfits, h, ChunkHeader.read?_toBytes_append]

/-- The header of a data chunk is followed by its edit count, or the bytes end in it. -/
theorem search_of_data (reach : Nat)
    (h : bytes.drop offset = (ChunkHeader.mk (.ofCode code) size).toBytes ++ rest)
    (hkind : ChunkKind.ofCode code = .data) :
    (∃ edits samples, rest = Field.be32 edits ++ samples ∧ search bytes reach offset =
      .found (offset + (chunkHeaderSize + editCountSize)) fun journal =>
        (journal.noteChunk ⟨.ofCode code, size⟩).noteEditCount edits) ∨
    rest.length < editCountSize ∧
      search bytes reach offset = .malformed (.truncated .editCount) offset := by
  rw [search_of_header h, if_pos hkind]
  rcases Nat.lt_or_ge rest.length editCountSize with hshort | hcount
  · right
    rw [Field.be32?, Field.be?_of_short hshort]
    exact ⟨hshort, rfl⟩
  · left
    obtain ⟨edits, samples, rfl⟩ := Field.exists_be_append (α := UInt32) hcount
    simp only [Field.be?_append]
    exact ⟨edits, samples, rfl, rfl⟩

/-- A chunk that does not have the samples is passed over, where the medium has its end. -/
theorem search_of_pass
    (h : bytes.drop offset = (ChunkHeader.mk (.ofCode code) size).toBytes ++ rest)
    (hkind : ChunkKind.ofCode code ≠ .data) (hsize : ¬ size < 0)
    (hreach : offset + (chunkHeaderSize + size.toInt.toNat) ≤ reach) :
    search bytes reach offset =
      (search bytes reach (offset + (chunkHeaderSize + size.toInt.toNat))).behind
        ⟨.ofCode code, size⟩ := by
  rw [search_of_header h, if_neg hkind, if_neg hsize, if_pos hreach]

/-! ## Bodies -/

/-- A `chunk` of its declared length is passed over to what stands behind it. -/
theorem search_of_chunk (chunk : Chunk)
    (hheader : bytes.drop offset = chunk.header.toBytes ++ rest) (hkind : chunk.header.kind ≠ .data)
    (hreach : offset + chunk.length ≤ reach) :
    search bytes reach offset =
      (search bytes reach (offset + chunk.length)).behind chunk.header := by
  have hlength : chunkHeaderSize + chunk.header.size.toInt.toNat = chunk.length := by
    rw [chunk.toInt_size, Int.toNat_natCast, Chunk.length]
  have hsize : ¬ chunk.header.size < 0 := by
    rw [Int64.lt_iff_toInt_lt, chunk.toInt_size]
    exact Int.not_lt.2 (Int.natCast_nonneg _)
  rw [← hlength] at hreach ⊢
  exact search_of_pass hheader hkind hsize hreach

/-- From `body` the samples are found, behind all that leads to them. -/
theorem search_of_body (body : Layout.Body) (hbody : bytes.drop offset = body.toBytes)
    (hreach : bytes.length ≤ reach) :
    search bytes reach offset = .found (offset + body.lead) body.note := by
  obtain ⟨passed, declared, edits, samples, hne⟩ := body
  rw [Layout.Body.toBytes_eq] at hbody
  simp only [Layout.Body.lead] at hbody ⊢
  -- The chunks in front of the samples are passed over one by one.
  induction passed generalizing offset with
  | nil =>
    have hkind : ChunkKind.data = .ofCode ChunkKind.data.code := by decide
    rw [List.flatMap_nil, List.nil_append, hkind] at hbody
    rw [search_of_header hbody, if_pos hkind.symm]
    simp only [Field.be?_append, Chunk.lengths, Nat.zero_add, ← hkind]
    rfl
  | cons chunk passed ih =>
    rw [List.flatMap_cons, List.append_assoc] at hbody
    have hpos : 0 < chunk.length := by
      rw [Chunk.length, chunkHeaderSize]
      omega
    have hend := Bytes.add_length_le_of_drop hbody chunk.length_toBytes hpos
    have hdrop := Bytes.drop_add_of_append hbody chunk.length_toBytes
    have hkind : chunk.header.kind ≠ .data := fun h =>
      hne chunk List.mem_cons_self (ChunkKind.ofCode_eq_data_iff.1 h)
    rw [Chunk.toBytes_eq, List.append_assoc] at hbody
    rw [search_of_chunk chunk hbody hkind (Nat.le_trans hend hreach),
      ih (fun other hmem => hne other (List.mem_cons_of_mem _ hmem)) hdrop, Chunk.lengths,
      Nat.add_assoc, ← Nat.add_assoc chunk.length]
    rfl

/-- What is found at `start` where a chunk is passed over is found there behind it. -/
theorem Search.of_behind {header : ChunkHeader} {result : Search} {start : Nat}
    {entry : Journal → Journal} (h : result.behind header = .found start entry) :
    ∃ entry', result = .found start entry' := by
  cases result with
  | found =>
    cases h
    exact ⟨_, rfl⟩
  | malformed => cases h
  | lost => cases h

/-- Samples that are found at the header of a data chunk are those of a body without other chunks.
-/
theorem exists_body_of_data {start : Nat} {entry : Journal → Journal}
    (hheader : bytes.drop offset = (ChunkHeader.mk (.ofCode code) size).toBytes ++ rest)
    (hkind : ChunkKind.ofCode code = .data) (h : search bytes reach offset = .found start entry) :
    ∃ body : Layout.Body, bytes.drop offset = body.toBytes := by
  rcases search_of_data reach hheader hkind with ⟨edits, samples, rfl, -⟩ | ⟨-, herror⟩
  · refine ⟨⟨[], size, edits, samples, by simp⟩, ?_⟩
    rw [Layout.Body.toBytes_eq, List.flatMap_nil, List.nil_append, hheader, hkind]
  · rw [herror] at h
    cases h

/-- What is found at `start` is the start of the samples of a body. -/
theorem exists_body_of_search {start : Nat} {entry : Journal → Journal}
    (h : search bytes reach offset = .found start entry) :
    ∃ body : Layout.Body, bytes.drop offset = body.toBytes := by
  induction offset using ChunkHeader.induction bytes generalizing start entry with
  | short offset hshort =>
    rw [search_of_short hshort] at h
    cases h
  | last offset code size rest hheader hneg =>
    by_cases hkind : ChunkKind.ofCode code = .data
    · exact exists_body_of_data hheader hkind h
    · rw [search_of_header hheader, if_neg hkind, if_pos hneg] at h
      cases h
  | step offset code size rest hheader hneg ih =>
    by_cases hkind : ChunkKind.ofCode code = .data
    · exact exists_body_of_data hheader hkind h
    rw [search_of_header hheader, if_neg hkind, if_neg hneg] at h
    split at h
    case isFalse => cases h
    case isTrue =>
      -- The rest of the search has a body behind this chunk, which goes in front of it.
      obtain ⟨entry', hfound⟩ := Search.of_behind h
      obtain ⟨body, hbody⟩ := ih hfound
      rw [← Nat.add_assoc, ← List.drop_drop,
        Bytes.drop_add_of_append hheader (ChunkHeader.length_toBytes _)] at hbody
      rw [Int64.lt_iff_toInt_lt] at hneg
      rw [hheader]
      exact Layout.Body.exists_cons hkind (Int.not_lt.1 hneg) hbody

/-- A medium with all offsets of sixty-four bits has those where the chunks in a file end. -/
theorem search_ne_lost (hreach : 2 ^ 64 - 1 ≤ reach) (hsize : bytes.length < 2 ^ 63) :
    search bytes reach offset ≠ .lost := by
  induction offset using ChunkHeader.induction bytes with
  | short offset hshort =>
    rw [search_of_short hshort]
    exact nofun
  | last offset code size rest hheader hneg =>
    rw [search_of_header hheader, if_pos hneg]
    split
    · split <;> nofun
    · exact nofun
  | step offset code size rest hheader hneg ih =>
    -- The header ends within the bytes, and its size is less than half of the offsets there are.
    have hfits := Bytes.add_length_le_of_drop hheader (ChunkHeader.length_toBytes _) (by decide)
    have hlarge := size.toInt_lt
    have hnext : offset + (chunkHeaderSize + size.toInt.toNat) ≤ reach := by omega
    rw [search_of_header hheader, if_neg hneg, if_pos hnext]
    split
    · split <;> nofun
    · cases hrest : search bytes reach (offset + (chunkHeaderSize + size.toInt.toNat)) with
      | found start entry => exact nofun
      | malformed cause offset => exact nofun
      | lost => exact absurd hrest ih

end Caf.Header
