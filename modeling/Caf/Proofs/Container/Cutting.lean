import Caf.Proofs.Container.Opening

/-!
# Containers that are cut off or grow

The samples run to the end of the bytes, so bytes that are cut off behind the first sample, and
bytes that are added, change the length of the samples and nothing else. Bytes that end in front of
the first sample are no container: wherever they end, reading comes to a record that is not there,
and never to the judgement on the description.

## Main definitions

* `Layout.withSamples`: a container with other samples;
* `Reader.withLength`: a reader of fewer or more samples.

## Main results

* `Layout.toBytes_withSamples`: the header does not depend on the samples;
* `Header.search_of_cut`, `Header.read_of_cut`: bytes that end in front of the first sample;
* `Reader.ofStore_of_resized`: what a container opens as when it has been cut off or has grown.
-/

namespace Caf

variable {store : Store}

/-! ## Other samples behind the same header -/

namespace Layout

/-- The container `l` with other `samples`. -/
def withSamples (l : Layout) (samples : Bytes) : Layout :=
  { l with body := { l.body with samples } }

/-- All that stands in front of the samples of `l` is told by the rest of the container. -/
theorem exists_lead (l : Layout) :
    ∃ lead : Bytes, lead.length = l.start ∧
      ∀ samples, (l.withSamples samples).toBytes = lead ++ samples := by
  let lead : Bytes := l.fileHeader.toBytes ++ (l.descriptionHeader.toBytes ++
    (l.description.toBytes ++ (l.surplus ++ (l.body.passed.flatMap Chunk.toBytes ++
      ((ChunkHeader.mk .data l.body.declared).toBytes ++ Field.be32 l.body.edits)))))
  have hbytes : ∀ samples, (l.withSamples samples).toBytes = lead ++ samples := by
    intro samples
    simp only [lead, toBytes_eq, Body.toBytes_eq, List.append_assoc]
    rfl
  refine ⟨lead, ?_, hbytes⟩
  have hlength := congrArg List.length (hbytes [])
  rw [length_toBytes, List.append_nil] at hlength
  exact hlength.symm

/-- Other `samples` stand behind the same bytes. -/
theorem toBytes_withSamples (l : Layout) (samples : Bytes) :
    (l.withSamples samples).toBytes = l.toBytes.take l.start ++ samples := by
  obtain ⟨lead, hlength, hbytes⟩ := l.exists_lead
  have hown : l.toBytes = lead ++ l.body.samples := hbytes l.body.samples
  rw [hbytes, hown, ← hlength, List.take_left]

end Layout

namespace Reader

/-- The reader of the same header in front of `length` sample bytes. -/
def withLength (reader : Reader) (length : Nat) : Reader :=
  { reader with
    header := { reader.header with stream := { reader.header.stream with length } }
    region := { reader.region with length } }

/-- The reader of a container with other `samples` has another length. -/
theorem reader_withSamples (l : Layout) (samples : Bytes) (rate : UInt32) (encoding : Encoding) :
    (l.withSamples samples).reader rate encoding =
      (l.reader rate encoding).withLength samples.length := rfl

end Reader

/-! ## Bytes that end in front of the first sample -/

/-- A `field` that ends in front of a cut at `n` stays as it is. -/
theorem Bytes.take_append_of_le {field rest : Bytes} {width n : Nat} (hwidth : field.length = width)
    (hle : width ≤ n) : (field ++ rest).take n = field ++ rest.take (n - width) := by
  rw [List.take_append, List.take_of_length_le (by omega), hwidth]

namespace Header

/-- Where the bytes behind `offset` are cut off in front of the end of a chunk header, there is no
room for it. -/
theorem length_lt_of_cut {bytes tail : Bytes} {offset n : Nat}
    (hcut : bytes.drop offset = tail.take n) (hn : n < chunkHeaderSize) :
    bytes.length < offset + chunkHeaderSize := by
  have hlength := congrArg List.length hcut
  rw [List.length_drop, List.length_take] at hlength
  omega

/-- A `body` that is cut off at `n`, in front of its samples, has none. Chunks that are passed over
may lead behind the cut. -/
theorem search_of_cut {bytes : Bytes} {reach offset : Nat} (body : Layout.Body) {n : Nat}
    (hcontent : bytes.drop offset = body.toBytes.take n) (hcut : n < body.lead)
    (hreach : offset + body.lead ≤ reach) :
    ∃ cause position, search bytes reach offset = .malformed cause position := by
  obtain ⟨passed, declared, edits, samples, hne⟩ := body
  rw [Layout.Body.toBytes_eq] at hcontent
  simp only [Layout.Body.lead] at hcontent hcut hreach
  -- Each chunk in front of the cut takes the cut nearer to the offset, or the offset behind it.
  induction passed generalizing offset n with
  | nil =>
    -- The data chunk: the cut is in its header or in its edit count.
    rw [List.flatMap_nil, List.nil_append] at hcontent
    by_cases hheader : n < chunkHeaderSize
    case pos => exact ⟨_, _, search_of_short (length_lt_of_cut hcontent hheader)⟩
    have hkind : ChunkKind.data = .ofCode ChunkKind.data.code := by decide
    rw [Bytes.take_append_of_le (ChunkHeader.length_toBytes _) (Nat.not_lt.1 hheader), hkind]
      at hcontent
    rcases search_of_data reach hcontent hkind.symm with
      ⟨_, _, hedits, -⟩ | ⟨-, hsearch⟩
    · have hlength := congrArg List.length hedits
      simp only [List.length_take, List.length_append, Field.length_be, Field.Word.width] at hlength
      simp only [Chunk.lengths, editCountSize] at hcut
      omega
    · exact ⟨_, _, hsearch⟩
  | cons chunk passed ih =>
    rw [List.flatMap_cons, List.append_assoc] at hcontent
    rw [Chunk.lengths] at hcut hreach
    by_cases hheader : n < chunkHeaderSize
    case pos => exact ⟨_, _, search_of_short (length_lt_of_cut hcontent hheader)⟩
    -- What stands behind this chunk is cut off nearer by its length.
    have hbehind : bytes.drop (offset + chunk.length) =
        (passed.flatMap Chunk.toBytes ++ ((ChunkHeader.mk .data declared).toBytes ++
          (Field.be32 edits ++ samples))).take (n - chunk.length) := by
      rw [← List.drop_drop, hcontent, List.drop_take, List.drop_left' chunk.length_toBytes]
    rw [Chunk.toBytes_eq, List.append_assoc,
      Bytes.take_append_of_le (ChunkHeader.length_toBytes _) (Nat.not_lt.1 hheader)] at hcontent
    have hkind : chunk.header.kind ≠ .data := fun h =>
      hne chunk List.mem_cons_self (ChunkKind.ofCode_eq_data_iff.1 h)
    obtain ⟨cause, position, hfound⟩ :=
      ih (fun other hmem => hne other (List.mem_cons_of_mem _ hmem))
      hbehind (by simp only [chunkHeaderSize] at hcut ⊢; omega) (by omega)
    refine ⟨cause, position, ?_⟩
    rw [search_of_chunk chunk hcontent hkind (by omega), hfound]
    rfl

/-- A header that is cut off at `n`, in front of the first sample, is a fault in the layout. -/
theorem read_of_cut (hread : store.Readable) (l : Layout) {n : Nat}
    (hcontent : store.content = l.toBytes.take n) (hcut : n < l.start)
    (hreach : l.start ≤ store.medium.reach) :
    ∃ cause offset scan, read ⟨store, .empty⟩ = .error (.malformed cause offset) scan := by
  have hbody : store.content.drop l.bodyStart = l.body.toBytes.take (n - l.bodyStart) := by
    rw [hcontent, List.drop_take, l.drop_bodyStart]
  have hlength : store.bytes.size ≤ n := by
    rw [← Store.length_content, hcontent, List.length_take]
    exact Nat.min_le_left ..
  rw [Layout.toBytes_eq] at hcontent
  rw [read_eq _ hread, readParts]
  -- The cut is in the file header, in the description chunk up to the end of its record, or behind
  -- that: there the description is passed over, be it by a seek behind the cut.
  rcases readMarked_cases .empty hread with ⟨_, _, -, hthere⟩ | ⟨cause, offset, scan, herror⟩
  case inr => exact ⟨_, _, scan, Run.bind_of_error herror⟩
  have hfits : fileHeaderSize ≤ n := by
    have hfile := congrArg List.length hthere
    rw [Store.length_content, List.length_append, FileHeader.length_toBytes] at hfile
    omega
  rw [Bytes.take_append_of_le (FileHeader.length_toBytes _) hfits] at hcontent
  obtain ⟨pace₁, hmarked⟩ := readMarked_eq .empty hread hcontent rfl
  rw [Run.bind_of_ok hmarked]
  have hstart : l.start = fileHeaderSize + chunkHeaderSize + (descriptionSize + l.surplus.length) +
      l.body.lead := rfl
  have hread₁ : (store.movedTo fileHeaderSize pace₁).Readable :=
    hread.movedTo (Nat.le_trans (by omega) hreach) pace₁
  rcases readDescription_cases (Journal.empty.noteFileHeader l.fileHeader) hread₁ with
    ⟨header, d, rest, -, -, hthere⟩ | ⟨cause, offset, scan, herror⟩
  case inr => exact ⟨_, _, scan, Run.bind_of_error (Run.bind_of_error herror)⟩
  have hrecord : fileHeaderSize + chunkHeaderSize + descriptionSize ≤ n := by
    have hfield : (header.toBytes ++ d.toBytes).length = chunkHeaderSize + descriptionSize := by
      rw [List.length_append, ChunkHeader.length_toBytes, Description.length_toBytes]
    rw [← List.append_assoc] at hthere
    have hend := Bytes.add_length_le_of_drop hthere hfield (by decide)
    rw [Store.movedTo_content, Store.movedTo_cursor, Store.length_content] at hend
    omega
  have hdrop := congrArg (List.drop fileHeaderSize) hcontent
  rw [List.drop_left' (FileHeader.length_toBytes _),
    Bytes.take_append_of_le (ChunkHeader.length_toBytes _) (by omega),
    Bytes.take_append_of_le (Description.length_toBytes _) (by omega)] at hdrop
  have hend : l.bodyStart ≤ store.medium.reach := Nat.le_trans (Nat.le_add_right ..) hreach
  obtain ⟨pace₂, hdescription⟩ := readDescription_of_layout
    (Journal.empty.noteFileHeader l.fileHeader) hread l hdrop hend pace₁
  have hlead : n - l.bodyStart < l.body.lead := by
    have hpos : 0 < l.body.lead := by
      rw [Layout.Body.lead, chunkHeaderSize]
      omega
    rw [Layout.bodyStart]
    omega
  obtain ⟨cause, offset, hsearch⟩ := search_of_cut l.body hbody hlead hreach
  have hanswers := findData_of_search
    ((Journal.empty.noteFileHeader l.fileHeader).noteDescription l.descriptionHeader l.description)
    (hread.movedTo hend pace₂)
  rw [Store.movedTo_content, Store.movedTo_cursor, Store.movedTo_medium, hsearch] at hanswers
  obtain ⟨scan, hfind⟩ := hanswers
  have hchunks : readChunks store.bytes.size
      ⟨store.movedTo fileHeaderSize pace₁, Journal.empty.noteFileHeader l.fileHeader⟩ =
        .error (.malformedAt cause offset) scan := by
    rw [readChunks, Run.bind_of_ok hdescription]
    exact Run.bind_of_error (x := (findData _ : ScanM Nat)) hfind
  exact ⟨_, _, scan, Run.bind_of_error hchunks⟩

end Header

/-! ## Opening -/

namespace Reader

/-- A container that has been opened by `reader` opens again behind any cut that leaves its first
sample, and when bytes have been added: what its header says stays the same, and the samples run to
the new end. A cut in front of the first sample is a fault in the layout. -/
theorem ofStore_of_resized {reader : Reader} {opened other : Store} (hread : store.Readable)
    (hopen : ofStore store = .ok reader opened) (hother : other.Readable)
    (hmedium : other.medium = store.medium) :
    (∀ n < reader.region.offset, other.content = store.content.take n →
      ∃ cause offset left, ofStore other = .error (.malformed cause offset) left) ∧
    (∀ n, reader.region.offset ≤ n → n ≤ store.bytes.size →
      other.content = store.content.take n →
      ∃ left, ofStore other = .ok (reader.withLength (n - reader.region.offset)) left) ∧
    (∀ added, other.content = store.content ++ added →
      ∃ left, ofStore other =
        .ok (reader.withLength (store.bytes.size + added.length - reader.region.offset)) left) := by
  obtain ⟨l, rate, encoding, pace, hcontent, hdescribes, rfl, -⟩ := layout_of_ofStore hread hopen
  have hsize : store.bytes.size = l.start + l.body.samples.length := by
    rw [← Store.length_content, hcontent, Layout.length_toBytes]
  -- With other samples the container opens as another length of the same reader.
  have hwith : ∀ samples, other.content = (l.withSamples samples).toBytes →
      ∃ left, ofStore other = .ok ((l.reader rate encoding).withLength samples.length) left := by
    intro samples hsamples
    obtain ⟨pace, hok⟩ := ofStore_of_describes hother hsamples hdescribes
    rw [reader_withSamples] at hok
    exact ⟨_, hok⟩
  have hlead : (l.toBytes.take l.start).length = l.start := by
    rw [List.length_take, Layout.length_toBytes]
    omega
  have hown : l.toBytes = l.toBytes.take l.start ++ l.body.samples :=
    l.toBytes_withSamples l.body.samples
  refine ⟨?_, ?_, ?_⟩
  · intro n hcut hother'
    -- The medium has held the whole container, so a seek behind the cut succeeds.
    have hreach : l.start ≤ other.medium.reach := by
      rw [hmedium]
      exact Nat.le_trans (by omega) hread.size
    rw [hcontent] at hother'
    obtain ⟨cause, offset, scan, herror⟩ := Header.read_of_cut hother l hother' hcut hreach
    exact ⟨cause, offset, _, ofStore_of_error herror⟩
  · intro n hstart hend hother'
    have hlength : (l.body.samples.take (n - l.start)).length = n - l.start := by
      rw [List.length_take]
      omega
    have hcut := hwith (l.body.samples.take (n - l.start)) <| by
      rw [Layout.toBytes_withSamples, ← Bytes.take_append_of_le hlead hstart, ← hown, hother',
        hcontent]
    rwa [hlength] at hcut
  · intro added hother'
    have hlength : (l.body.samples ++ added).length =
        store.bytes.size + added.length - l.start := by
      rw [List.length_append]
      omega
    have hgrown := hwith (l.body.samples ++ added) <| by
      rw [Layout.toBytes_withSamples, ← List.append_assoc, ← hown, hother', hcontent]
    rwa [hlength] at hgrown

/-- A container of two bytes of samples that is cut off inside of a chunk of padding is a fault in
the layout; with one more byte it opens with three bytes of samples. -/
theorem ofStore_of_resized_padding :
    ∃ (store cut grown opened : Store) (reader : Reader),
      ofStore store = .ok reader opened ∧ reader.region = ⟨84, 2⟩ ∧
      cut.content = store.content.take 66 ∧
      (∃ cause offset left, ofStore cut = .error (.malformed cause offset) left) ∧
      grown.content = store.content ++ [9] ∧
      ∃ left, ofStore grown = .ok (reader.withLength 3) left := by
  obtain ⟨l, hstart, hsamples, hdescribes⟩ : ∃ l : Layout, l.start = 84 ∧
      l.body.samples.length = 2 ∧ l.description.Describes 44100 .pcm16 :=
    ⟨⟨1, 0, ⟨⟨0x40E5888000000000⟩, Description.lpcm, 0, 2, 1, 1, 16⟩, [9],
      ⟨[⟨.ofChars 'f' 'r' 'e' 'e', [1, 2, 3], by decide⟩], -1, 0, [7, 8], by decide⟩, by decide⟩,
      rfl, rfl, ⟨by decide, by decide, by decide⟩⟩
  have hmemory : ∀ bytes : Bytes, bytes.length ≤ 87 →
      ∃ store : Store, store.content = bytes ∧ store.Readable ∧ store.medium = .memory := by
    intro bytes hshort
    have hreach : 87 ≤ 2 ^ 64 - 1 := by decide
    exact ⟨{ bytes := ⟨bytes.toArray⟩ }, rfl,
      ⟨rfl, rfl, rfl, Nat.zero_le _, Nat.le_trans hshort hreach⟩, rfl⟩
  have hlength : l.toBytes.length = 86 := by rw [Layout.length_toBytes, hstart, hsamples]
  obtain ⟨store, hcontent, hread, hmedium⟩ := hmemory l.toBytes (by omega)
  obtain ⟨cut, hcut, hread₁, hmedium₁⟩ := hmemory (l.toBytes.take 66)
    (by rw [List.length_take]; omega)
  obtain ⟨grown, hgrown, hread₂, hmedium₂⟩ := hmemory (l.toBytes ++ [9])
    (by rw [List.length_append, hlength]; decide)
  have hsize : store.bytes.size = 86 := by rw [← Store.length_content, hcontent, hlength]
  obtain ⟨pace, hopen⟩ := ofStore_of_describes hread hcontent hdescribes
  have hregion : (l.reader 44100 .pcm16).region = ⟨84, 2⟩ := by
    rw [Layout.reader, hstart, hsamples]
  rw [← hcontent] at hcut hgrown
  have hrefused := (ofStore_of_resized hread hopen hread₁ (hmedium₁.trans hmedium.symm)).1 66
    (by rw [hregion]; decide) hcut
  have hopened := (ofStore_of_resized hread hopen hread₂ (hmedium₂.trans hmedium.symm)).2.2 [9]
    hgrown
  rw [hregion, hsize] at hopened
  exact ⟨store, cut, grown, _, _, hopen, hregion, hcut, hrefused, hgrown, hopened⟩

end Reader

end Caf
