import Caf.Proofs.Container.Chain

/-!
# The listing of every byte string

The bytes alone tell what a listing comes to. Behind the file header stands a chunk header, and
behind what it declares another one, for as long as there is room for one; sizes need not be true,
so the next header may be anywhere, also in the middle of something else. `ChunkList.links` follows
these headers without a store. It ends with a header that declares a negative size, since nothing
tells where the chunk behind it would be.

The walk over a store follows the same headers: its own count of the offset and the cursor of the
store stay equal, and neither leaves the range of offsets. A negative size is refused, unless it is
the one of a data chunk that runs to the end of the file.

## Main definitions

* `ChunkList.links`: the chain of the chunk headers in some bytes;
* `ChunkList.Entry.IsRefused`: an entry with a negative size that does not end a listing.

## Main results

* `ChunkList.of_mem_links`, `ChunkList.pairwise_links`: where the headers of the chain are;
* `ChunkList.walk_eq_links`: a walk follows the chain, or fails at the entry that is refused;
* `ChunkList.read_eq_links`: what listing a store comes to, for every store of memory.
-/

namespace Caf

/-- The first bytes of a file `header` are its marker. -/
theorem FileHeader.toBytes_isPrefix_iff {code : FourCC} {header : FileHeader} {rest : Bytes} :
    code.toBytes <+: header.toBytes ++ rest ↔ header.marker = code := by
  rw [toBytes, List.append_assoc, List.append_assoc]
  constructor
  · rintro ⟨tail, h⟩
    have hread := congrArg FourCC.read? h
    rw [FourCC.read?_toBytes_append, FourCC.read?_toBytes_append] at hread
    exact (Prod.mk.inj (Option.some.inj hread)).1.symm
  · rintro rfl
    exact List.prefix_append ..

namespace ChunkList

/-! ## The chain -/

/-- The chunk headers in `bytes` from `offset` on, each behind what the one before it declares. -/
def links (bytes : Bytes) (offset : Nat) : List Entry :=
  if offset + chunkHeaderSize ≤ bytes.length then
    match ChunkHeader.read? (bytes.drop offset) with
    | none => []
    | some (header, _) =>
      ⟨header.kind, offset, header.size⟩ ::
        if header.size < 0 then []
        else links bytes (offset + (chunkHeaderSize + header.size.toInt.toNat))
  else []
termination_by bytes.length - offset
decreasing_by
  simp only [chunkHeaderSize] at *
  omega

variable {bytes : Bytes} {offset : Nat}

/-- The chain ends where there is no room for another header at `offset`. -/
theorem links_of_short (h : bytes.length < offset + chunkHeaderSize) : links bytes offset = [] := by
  rw [links, if_neg (Nat.not_le.2 h)]

/-- A header is followed by the one behind what it declares. -/
theorem links_of_header {code : FourCC} {size : Int64} {rest : Bytes}
    (h : bytes.drop offset = (ChunkHeader.mk (.ofCode code) size).toBytes ++ rest) :
    links bytes offset = ⟨.ofCode code, offset, size⟩ ::
      if size < 0 then [] else links bytes (offset + (chunkHeaderSize + size.toInt.toNat)) := by
  have hfits := Bytes.add_length_le_of_drop h (ChunkHeader.length_toBytes _) (by decide)
  rw [links, if_pos hfits, h, ChunkHeader.read?_toBytes_append]

/-- No header of the chain is in front of `offset`, and each is there as a whole. -/
theorem of_mem_links {entry : Entry} (h : entry ∈ links bytes offset) :
    offset ≤ entry.offset ∧ entry.offset + chunkHeaderSize ≤ bytes.length := by
  induction offset using ChunkHeader.induction bytes with
  | short offset hshort =>
    rw [links_of_short hshort] at h
    cases h
  | last offset code size rest hheader hneg =>
    rw [links_of_header hheader, if_pos hneg, List.mem_singleton] at h
    rw [h]
    exact ⟨Nat.le_refl _,
      Bytes.add_length_le_of_drop hheader (ChunkHeader.length_toBytes _) (by decide)⟩
  | step offset code size rest hheader hneg ih =>
    rw [links_of_header hheader, if_neg hneg, List.mem_cons] at h
    rcases h with rfl | hmem
    · exact ⟨Nat.le_refl _,
        Bytes.add_length_le_of_drop hheader (ChunkHeader.length_toBytes _) (by decide)⟩
    · obtain ⟨hbehind, hend⟩ := ih hmem
      exact ⟨Nat.le_trans (Nat.le_add_right ..) hbehind, hend⟩

/-- A header that others follow declares a size that is not negative, and they stand behind what it
declares. -/
theorem pairwise_links (bytes : Bytes) (offset : Nat) :
    (links bytes offset).Pairwise fun entry later => 0 ≤ entry.size.toInt ∧
      entry.offset + (chunkHeaderSize + entry.size.toInt.toNat) ≤ later.offset := by
  induction offset using ChunkHeader.induction bytes with
  | short offset hshort =>
    rw [links_of_short hshort]
    exact .nil
  | last offset code size rest hheader hneg =>
    rw [links_of_header hheader, if_pos hneg]
    exact List.pairwise_singleton _ _
  | step offset code size rest hheader hneg ih =>
    rw [links_of_header hheader, if_neg hneg]
    rw [Int64.lt_iff_toInt_lt] at hneg
    refine ih.cons ?_
    intro later hmem
    exact ⟨Int.not_lt.1 hneg, (of_mem_links hmem).1⟩

/-! ## Walking -/

/-- A negative size of `entry`, other than the one of samples that run to the end of the file. -/
def Entry.IsRefused (entry : Entry) : Prop :=
  entry.size < 0 ∧ entry.isOpenEnded = false

/-- How the size of `entry` is refused: where, and with what to say. -/
def Entry.refusal (entry : Entry) : Error :=
  .malformedAt (.negativeSize entry.kind entry.size) entry.offset

/-- What comes of listing `chain`: an entry that is refused is a failure, and otherwise the chain is
the listing. -/
structure Lists (chain : List Entry) (result : EStateM.Result Error Store (List Entry)) : Prop where
  /-- A refused entry is a fault in the layout. -/
  refused : ∀ entry ∈ chain, entry.IsRefused → ∃ left, result = .error entry.refusal left
  /-- Without one, all entries are listed. -/
  listed : (∀ entry ∈ chain, ¬ entry.IsRefused) → ∃ left, result = .ok chain left

/-- An `entry` in front that is not refused does not matter to the others. -/
theorem Lists.prepend {entry : Entry} {chain : List Entry}
    {result : EStateM.Result Error Store (List Entry)} (hentry : ¬ entry.IsRefused)
    (h : Lists chain result) : Lists (entry :: chain) (prepend entry result) := by
  constructor
  · intro refused hmem hrefused
    rcases List.mem_cons.1 hmem with rfl | hmem
    · exact absurd hrefused hentry
    · obtain ⟨left, hresult⟩ := h.refused refused hmem hrefused
      exact ⟨left, by rw [hresult]; rfl⟩
  · intro hnone
    obtain ⟨left, hresult⟩ := h.listed fun refused hmem =>
      hnone refused (List.mem_cons_of_mem _ hmem)
    exact ⟨left, by rw [hresult]; rfl⟩

variable {store : Store}

/-- A header with a negative size is the last one that `walk` looks at. -/
theorem walk_of_negative (hread : store.Readable) {code : FourCC} {size : Int64} {rest : Bytes}
    (hcontent : store.content.drop store.cursor =
      (ChunkHeader.mk (.ofCode code) size).toBytes ++ rest)
    (hneg : size < 0) (hsmall : store.cursor + chunkHeaderSize < 2 ^ 64) :
    Lists [⟨.ofCode code, store.cursor, size⟩]
      (walk store.bytes.size store.cursor store) := by
  have hfits : store.cursor + chunkHeaderSize ≤ store.bytes.size := by
    have := Store.add_length_le_size hcontent (by rw [ChunkHeader.length_toBytes]; decide)
    rwa [ChunkHeader.length_toBytes] at this
  obtain ⟨pace, hentry⟩ := readEntry_eq hread hcontent
  rw [walk_eq, fits_eq _ hsmall, decide_eq_true hfits]
  simp only [hentry]
  -- A negative size ends the list: as its last entry where it leaves the chunk open, with an
  -- error otherwise.
  cases hopen : (Entry.mk (.ofCode code) store.cursor size).isOpenEnded with
  | true =>
    simp only [↓reduceIte]
    refine ⟨?_, fun _ => ⟨_, rfl⟩⟩
    intro entry hmem hrefused
    rw [List.mem_singleton.1 hmem] at hrefused
    exact absurd hrefused.2 (by rw [hopen]; exact Bool.noConfusion)
  | false =>
    simp only [Bool.false_eq_true, ↓reduceIte, Header.passPayload, if_pos hneg]
    refine ⟨?_, fun hnone => absurd ⟨hneg, hopen⟩ (hnone _ (List.mem_singleton_self _))⟩
    intro entry hmem _
    rw [List.mem_singleton.1 hmem]
    exact ⟨_, rfl⟩

/-- A walk follows the chain `links` from the cursor on. Wherever a size takes it, its offsets have
sixty-four bits: a header ends within the bytes, so the next one is less than the largest size
behind them. -/
theorem walk_eq_links (hread : store.Readable) (hreach : 2 ^ 64 - 1 ≤ store.medium.reach)
    (hsize : store.bytes.size + chunkHeaderSize ≤ 2 ^ 63)
    (hcursor : store.cursor < store.bytes.size + 2 ^ 63) :
    Lists (links store.content store.cursor) (walk store.bytes.size store.cursor store) := by
  generalize hbytes : store.content = bytes
  generalize hoffset : store.cursor = offset
  induction offset using ChunkHeader.induction bytes generalizing store with
  | short offset hshort =>
    rw [← hbytes, Store.length_content] at hshort
    rw [links_of_short (by rwa [← hbytes, Store.length_content]),
      walk_of_end store hshort (by omega)]
    exact ⟨fun entry hmem => absurd hmem List.not_mem_nil, fun _ => ⟨store, rfl⟩⟩
  | last offset code size rest hheader hneg =>
    rw [links_of_header hheader, if_pos hneg]
    subst hbytes hoffset
    exact walk_of_negative hread hheader hneg (by omega)
  | step offset code size rest hheader hneg ih =>
    rw [links_of_header hheader, if_neg hneg]
    subst hbytes hoffset
    have hfits := Store.add_length_le_size hheader (by rw [ChunkHeader.length_toBytes]; decide)
    rw [ChunkHeader.length_toBytes] at hfits
    -- The cursor goes to where the chain goes on.
    have hpos : 0 ≤ size.toInt := by
      rw [Int64.lt_iff_toInt_lt] at hneg
      exact Int.not_lt.1 hneg
    have hlarge := size.toInt_lt
    have hnext : store.cursor + (chunkHeaderSize + size.toInt.toNat) <
        store.bytes.size + 2 ^ 63 := by omega
    have hthere : store.cursor + (chunkHeaderSize + size.toInt.toNat) ≤ store.medium.reach := by
      omega
    obtain ⟨pace, hwalk⟩ := walk_of_entry hread hheader (Int.toNat_of_nonneg hpos).symm rfl hthere
      (by omega)
    rw [hwalk]
    have hrest := ih (hread.movedTo hthere pace) hreach hsize hnext rfl rfl
    exact hrest.prepend fun hrefused => hneg hrefused.1

/-! ## Listing a store -/

/-- Bytes that do not start like a container are not listed. -/
theorem read_of_foreign (hread : store.Readable)
    (h : store.bytes.size < fileHeaderSize ∨ ¬ containerMarker.toBytes <+: store.content) :
    ∃ cause left, read store = .error (.malformedAt cause 0) left := by
  have hmeasured := Store.run_of_ok hread.length_eq
  have hsought := Store.run_of_ok (Store.seekTo_eq hread.seek (Nat.zero_le store.medium.reach))
  rw [read, Run.bind_of_ok hmeasured, Run.bind_of_ok hsought]
  rcases Nat.lt_or_ge store.bytes.size fileHeaderSize with hshort | hfits
  -- There is no file header.
  · obtain ⟨cursor, pace, hrecord⟩ := Store.record_of_short .fileHeader 0 FileHeader.read?
      (show (store.movedTo 0 store.faults.pace).faults.bad = none from hread.bad) hshort
    exact ⟨_, _, Run.bind_of_error hrecord⟩
  -- There is one, and it has another marker.
  · obtain ⟨header, rest, hcontent⟩ :=
      FileHeader.exists_toBytes_append (Store.length_content store ▸ hfits)
    obtain ⟨pace, hfile⟩ := Header.readFileHeader_eq hread hcontent
    have hmarker : header.marker ≠ containerMarker := by
      intro hsame
      apply h.resolve_left (Nat.not_lt.2 hfits)
      rw [hcontent]
      exact FileHeader.toBytes_isPrefix_iff.2 hsame
    rw [Run.bind_of_ok hfile]
    exact ⟨_, _, Run.bind_of_error (Header.requireMarker_of_ne hmarker _)⟩

/-- Behind a file header of a container, a listing is that of the chain `links`. -/
theorem lists_of_marker (hread : store.Readable) (hreach : 2 ^ 64 - 1 ≤ store.medium.reach)
    (hsize : store.bytes.size + chunkHeaderSize ≤ 2 ^ 63)
    (hheader : fileHeaderSize ≤ store.bytes.size)
    (hmarker : containerMarker.toBytes <+: store.content) :
    Lists (links store.content fileHeaderSize) (read store) := by
  obtain ⟨header, rest, hcontent⟩ :=
    FileHeader.exists_toBytes_append (Store.length_content store ▸ hheader)
  rw [hcontent] at hmarker
  have hsame := FileHeader.toBytes_isPrefix_iff.1 hmarker
  obtain ⟨pace, hwalk⟩ := read_of_fileHeader hread hcontent hsame
  rw [hwalk]
  exact walk_eq_links (hread.movedTo (Nat.le_trans hheader hread.size) pace) hreach hsize
    (by rw [Store.movedTo_cursor, fileHeaderSize]; omega)

/-- What listing (`list_chunks`) comes to, for every byte string in memory and every cursor. The
bytes of `store` may fill half of the range of offsets but for the size of a chunk header; no memory
holds as many. Bytes without a file header, or with the header of something else, are a fault in the
layout at their start. Otherwise there is a chain of chunk headers, each behind what the one before
it declares, and all of them within the bytes; only the last one can declare what is not there. If
that one declares a negative size other than the one of samples without an end, it is a fault in the
layout at its offset. If not, the listing is the chain. -/
theorem read_eq_links (hread : store.Readable) (hreach : 2 ^ 64 - 1 ≤ store.medium.reach)
    (hsize : store.bytes.size + chunkHeaderSize ≤ 2 ^ 63) :
    ((store.bytes.size < fileHeaderSize ∨ ¬ containerMarker.toBytes <+: store.content) →
      ∃ cause left, read store = .error (.malformedAt cause 0) left) ∧
    (fileHeaderSize ≤ store.bytes.size → containerMarker.toBytes <+: store.content →
      (∀ entry ∈ links store.content fileHeaderSize, entry.size < 0 → entry.isOpenEnded = false →
        ∃ left, read store =
          .error (.malformedAt (.negativeSize entry.kind entry.size) entry.offset) left) ∧
      ((∀ entry ∈ links store.content fileHeaderSize, entry.size < 0 → entry.isOpenEnded = true) →
        ∃ left, read store = .ok (links store.content fileHeaderSize) left) ∧
      ((links store.content fileHeaderSize).Pairwise fun entry later => 0 ≤ entry.size.toInt ∧
        entry.offset + (chunkHeaderSize + entry.size.toInt.toNat) ≤ later.offset) ∧
      ∀ entry ∈ links store.content fileHeaderSize,
        fileHeaderSize ≤ entry.offset ∧ entry.offset + chunkHeaderSize ≤ store.bytes.size) := by
  refine ⟨read_of_foreign hread, ?_⟩
  intro hheader hmarker
  have hlists := lists_of_marker hread hreach hsize hheader hmarker
  refine ⟨?_, ?_, pairwise_links _ _, ?_⟩
  · intro entry hmem hneg hclosed
    exact hlists.refused entry hmem ⟨hneg, hclosed⟩
  · intro hends
    apply hlists.listed
    rintro entry hmem ⟨hneg, hclosed⟩
    rw [hends entry hmem hneg] at hclosed
    cases hclosed
  · intro entry hmem
    rw [← Store.length_content]
    exact of_mem_links hmem

/-- An empty chunk is followed by the header of samples, and then by nothing, whatever the size says
that the header declares. The listing starts with the cursor somewhere. -/
theorem read_eq_links_of_overrun :
    ∃ store : Store, store.Readable ∧ store.cursor = 7 ∧ store.bytes.size = 32 ∧
      ∃ left, read store = .ok [⟨.free, 8, 0⟩, ⟨.data, 20, Int64.maxValue⟩] left := by
  let store : Store := { cursor := 7, bytes := ⟨#[
    99, 97, 102, 102, 0, 1, 0, 0,
    102, 114, 101, 101, 0, 0, 0, 0, 0, 0, 0, 0,
    100, 97, 116, 97, 127, 255, 255, 255, 255, 255, 255, 255]⟩ }
  have hread : store.Readable := ⟨rfl, rfl, rfl, by decide, by decide⟩
  have hlinks : links store.content fileHeaderSize =
      [⟨.free, 8, 0⟩, ⟨.data, 20, Int64.maxValue⟩] := by decide +kernel
  obtain ⟨-, hcontainer⟩ := read_eq_links hread (Nat.le_refl _) (by decide)
  obtain ⟨-, hlisted, -, -⟩ := hcontainer (by decide) (by decide)
  rw [hlinks] at hlisted
  exact ⟨store, hread, rfl, rfl, hlisted (by decide)⟩

end ChunkList

end Caf
