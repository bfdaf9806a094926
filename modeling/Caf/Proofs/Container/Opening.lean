import Caf.Container.Reader
import Caf.Proofs.Container.Scanning

/-!
# Opening accepts exactly the containers

On a store without faults, opening succeeds exactly where the bytes are a container whose
description makes sense, and the reader it gives is told by the container. Every other store is
refused, and the kind of the error says whether the bytes or the encoding are to blame.

## Main definitions

* `Description.Describes`: a description that makes sense;
* `Layout.reader`: the reader of a container.

## Main results

* `Header.read_of_layout`, `Header.read_cases`: reading a header succeeds up to the judgement on the
  description exactly where the bytes are a container;
* `Reader.ofStore_eq_ok_iff_layout`: which stores are opened, and how the others are refused.
-/

namespace Caf

variable {store : Store} {journal : Journal}

/-- The description `d` makes sense: its rate is a whole number, there is a channel, and an encoding
is described. -/
structure Description.Describes (d : Description) (rate : UInt32) (encoding : Encoding) : Prop where
  /-- The rate is accepted. -/
  rate : Header.wholeRate? d.sampleRate = some rate
  /-- There is a channel. -/
  channels : d.channelsPerFrame ≠ 0
  /-- A rule finds the encoding. -/
  encoding : d.encoding? = some encoding

/-- A description makes sense, or its rate or its channels cannot be, or it is in an unknown
encoding. -/
theorem Description.describes_cases (d : Description) :
    (∃ rate encoding, d.Describes rate encoding) ∨
    (Header.wholeRate? d.sampleRate = none ∨ d.channelsPerFrame = 0) ∨
    ∃ rate, Header.wholeRate? d.sampleRate = some rate ∧ d.channelsPerFrame ≠ 0 ∧
      d.encoding? = none := by
  cases hrate : Header.wholeRate? d.sampleRate with
  | none => exact .inr (.inl (.inl rfl))
  | some rate =>
    by_cases hchannels : d.channelsPerFrame = 0
    case pos => exact .inr (.inl (.inr hchannels))
    cases hencoding : d.encoding? with
    | none => exact .inr (.inr ⟨rate, rfl, hchannels, rfl⟩)
    | some encoding => exact .inl ⟨rate, encoding, hrate, hchannels, hencoding⟩

namespace Layout

/-- The stream of the container `l`. -/
def stream (l : Layout) (rate : UInt32) (encoding : Encoding) : Stream where
  sampleRate := rate
  channels := l.description.channelsPerFrame
  encoding := encoding
  order := l.description.byteOrder
  start := some l.start
  length := l.body.samples.length

/-- The reader of the container `l`. -/
def reader (l : Layout) (rate : UInt32) (encoding : Encoding) : Reader where
  header := ⟨l.fileHeader, l.description, l.stream rate encoding⟩
  region := ⟨l.start, l.body.samples.length⟩
  journal := l.journal

/-- The samples stand behind the description chunk, the chunks that are passed over, and the start
of the data chunk. -/
theorem start_eq (l : Layout) :
    l.start = 36 + (descriptionSize + l.surplus.length) + Chunk.lengths l.body.passed := by
  rw [start, bodyStart, Body.lead]
  simp only [fileHeaderSize, chunkHeaderSize, editCountSize]
  omega

end Layout

/-! ## The judgement on the description -/

/-- A description with an encoding leaves no warning. -/
theorem Journal.judge_of_found {d : Description} {encoding : Encoding}
    (h : d.encoding? = some encoding) : journal.judge d = (some encoding, journal) := by
  unfold Description.encoding? at h
  unfold judge
  cases hverdict : d.classify with
  | found found =>
    rw [hverdict] at h
    cases h
    rfl
  | reject reason =>
    rw [hverdict] at h
    cases h
  | pass =>
    rw [hverdict] at h
    cases h

namespace Header

variable {d : Description} {start fileLength : Nat} {scan scan' : Scan}

/-- A description that `Describes` an encoding makes a stream. -/
theorem streamOf_of_describes {rate : UInt32} {encoding : Encoding}
    (h : d.Describes rate encoding) :
    streamOf d start fileLength scan =
      .ok { sampleRate := rate, channels := d.channelsPerFrame, encoding, order := d.byteOrder,
            start := some start, length := fileLength - start } scan := by
  have hjudged : (scan.journal.judge d).2 = scan.journal := by
    rw [Journal.judge_of_found h.encoding]
  simp only [streamOf_eq, h.rate, if_neg h.channels, h.encoding]
  rw [Run.bind_of_ok (Scan.note_eq _), hjudged]
  rfl

/-- A rate or a number of channels that cannot be is a fault in the layout. -/
theorem streamOf_of_invalid (h : wholeRate? d.sampleRate = none ∨ d.channelsPerFrame = 0) :
    ∃ cause offset, streamOf d start fileLength scan = .error (.malformed cause offset) scan := by
  rw [streamOf_eq]
  cases hrate : wholeRate? d.sampleRate with
  | none => exact ⟨_, _, rfl⟩
  | some rate =>
    have hchannels : d.channelsPerFrame = 0 := h.resolve_left (by rw [hrate]; exact nofun)
    simp only [if_pos hchannels]
    exact ⟨_, _, rfl⟩

/-- A description without an encoding is not supported. -/
theorem streamOf_of_unknown {rate : UInt32} (hrate : wholeRate? d.sampleRate = some rate)
    (hchannels : d.channelsPerFrame ≠ 0) (hencoding : d.encoding? = none) :
    ∃ cause scan', streamOf d start fileLength scan = .error (.unsupported cause) scan' := by
  simp only [streamOf_eq, hrate, if_neg hchannels, hencoding]
  rw [Run.bind_of_ok (Scan.note_eq _)]
  exact ⟨_, _, rfl⟩

/-- A `stream` is made of a description that makes sense. -/
theorem streamOf_ok {stream : Stream}
    (h : streamOf d start fileLength scan = .ok stream scan') :
    ∃ rate encoding, d.Describes rate encoding ∧ scan' = scan ∧
      stream = { sampleRate := rate, channels := d.channelsPerFrame, encoding,
                 order := d.byteOrder, start := some start, length := fileLength - start } := by
  rcases d.describes_cases with
    ⟨rate, encoding, hd⟩ | hinvalid | ⟨rate, hrate, hchannels, hencoding⟩
  · rw [streamOf_of_describes hd] at h
    cases h
    exact ⟨rate, encoding, hd, rfl, rfl⟩
  · obtain ⟨cause, offset, herror⟩ := streamOf_of_invalid hinvalid
    rw [herror] at h
    cases h
  · obtain ⟨cause, scan'', herror⟩ := streamOf_of_unknown hrate hchannels hencoding
    rw [herror] at h
    cases h

/-! ## The header as a whole -/

/-- The description of the container `l` is read, and the cursor moves over its chunk to where the
body stands, or would stand if the bytes behind the record were there. -/
theorem readDescription_of_layout (journal : Journal) (hread : store.Readable) (l : Layout)
    {rest : Bytes}
    (hrecord : store.content.drop fileHeaderSize =
      l.descriptionHeader.toBytes ++ (l.description.toBytes ++ rest))
    (hreach : l.bodyStart ≤ store.medium.reach) (pace : List Turn) :
    ∃ pace', readDescription ⟨store.movedTo fileHeaderSize pace, journal⟩ =
      .ok l.description ⟨store.movedTo l.bodyStart pace',
        journal.noteDescription l.descriptionHeader l.description⟩ := by
  have hsize : l.descriptionHeader.size.toInt.toNat = descriptionSize + l.surplus.length := by
    rw [l.toInt_descriptionHeader_size, Int.toNat_natCast]
  have hlarge : (descriptionSize : Int) ≤ l.descriptionHeader.size.toInt := by
    rw [l.toInt_descriptionHeader_size]
    omega
  have hread₁ : (store.movedTo fileHeaderSize pace).Readable :=
    hread.movedTo (Nat.le_trans (by rw [Layout.bodyStart]; omega) hreach) pace
  obtain ⟨pace', hdescription⟩ := readDescription_eq journal hread₁ rfl hrecord hlarge
    (by rw [hsize]; exact hreach)
  rw [hsize, Store.movedTo_movedTo, Store.movedTo_cursor, ← Layout.bodyStart] at hdescription
  exact ⟨pace', hdescription⟩

/-- The chunks of a container are read up to the first sample, which stands at `l.start`. -/
theorem readChunks_of_layout (hread : store.Readable) {l : Layout}
    (hcontent : store.content = l.toBytes) (pace : List Turn) :
    ∃ pace', readChunks store.bytes.size
        ⟨store.movedTo fileHeaderSize pace, Journal.empty.noteFileHeader l.fileHeader⟩ =
      .ok (l.description, l.start) ⟨store.movedTo l.start pace', l.journal⟩ := by
  have hend : l.bodyStart ≤ store.medium.reach := by
    have hlength := congrArg List.length hcontent
    rw [Store.length_content, Layout.length_toBytes, Layout.start] at hlength
    exact Nat.le_trans (by omega) hread.size
  have hbody : store.content.drop l.bodyStart = l.body.toBytes := by
    rw [hcontent, l.drop_bodyStart]
  -- The file header is in front of the description, and what the body starts with behind it.
  rw [Layout.toBytes_eq] at hcontent
  have hdrop := congrArg (List.drop fileHeaderSize) hcontent
  rw [List.drop_left' (FileHeader.length_toBytes _)] at hdrop
  obtain ⟨pace₁, hdescription⟩ := readDescription_of_layout
    (Journal.empty.noteFileHeader l.fileHeader) hread l hdrop hend pace
  obtain ⟨pace₂, hfind⟩ := findData_of_body
    ((Journal.empty.noteFileHeader l.fileHeader).noteDescription l.descriptionHeader l.description)
    (hread.movedTo hend pace₁) l.body hbody
  refine ⟨pace₂, ?_⟩
  rw [readChunks, Run.bind_of_ok hdescription,
    Run.bind_of_ok (x := (findData store.bytes.size : ScanM Nat)) hfind,
    Run.bind_of_ok (Scan.note_eq _)]
  rfl

/-- The header of a container is read up to the first sample, and then judged by `streamOf`. -/
theorem read_of_layout (hread : store.Readable) {l : Layout}
    (hcontent : store.content = l.toBytes) :
    ∃ pace, read ⟨store, .empty⟩ =
      (streamOf l.description l.start store.bytes.size >>= fun stream =>
        pure ⟨l.fileHeader, l.description, stream⟩) ⟨store.movedTo l.start pace, l.journal⟩ := by
  obtain ⟨pace₁, hmarked⟩ := readMarked_eq .empty hread (hcontent.trans l.toBytes_eq) rfl
  obtain ⟨pace₂, hchunks⟩ := readChunks_of_layout hread hcontent pace₁
  refine ⟨pace₂, ?_⟩
  rw [read_eq _ hread, readParts, Run.bind_of_ok hmarked, Run.bind_of_ok hchunks]

/-- Where a container with some file `header` has no description or no samples, its chunks cannot be
read. The layout is at fault, unless the medium lacks an offset that is declared. -/
theorem readChunks_cases (journal : Journal) (hread : store.Readable) {header : FileHeader}
    {rest : Bytes} (hmarker : header.marker = containerMarker)
    (hcontent : store.content = header.toBytes ++ rest) (pace : List Turn) :
    (∃ l : Layout, store.content = l.toBytes) ∨
    ∃ e scan, readChunks store.bytes.size ⟨store.movedTo fileHeaderSize pace, journal⟩ =
        .error e scan ∧
      (2 ^ 64 - 1 ≤ store.medium.reach → store.bytes.size < 2 ^ 63 →
        ∃ cause offset, e = .malformed cause offset) := by
  have hfits : fileHeaderSize ≤ store.medium.reach := by
    have hlength := congrArg List.length hcontent
    rw [Store.length_content, List.length_append, FileHeader.length_toBytes] at hlength
    exact Nat.le_trans (by omega) hread.size
  have hdrop := congrArg (List.drop fileHeaderSize) hcontent
  rw [List.drop_left' (FileHeader.length_toBytes _)] at hdrop
  have hread₁ := hread.movedTo hfits pace
  rcases readDescription_cases journal hread₁ with
    ⟨dheader, d, tail, hkind, hlarge, hrecord⟩ | ⟨cause, offset, scan, herror⟩
  case inr => exact .inr ⟨_, scan, Run.bind_of_error herror, fun _ _ => ⟨cause, offset, rfl⟩⟩
  have hlast := dheader.size.toInt_lt
  by_cases hend : fileHeaderSize + chunkHeaderSize + dheader.size.toInt.toNat ≤ store.medium.reach
  case neg =>
    have hfar := Nat.lt_of_not_le hend
    obtain ⟨e, scan, herror⟩ :=
      (readDescription_of_record journal hread₁ hkind hrecord hlarge).2 hfar
    refine .inr ⟨e, scan, Run.bind_of_error herror, ?_⟩
    intro hreach hsize
    simp only [fileHeaderSize, chunkHeaderSize] at hfar
    omega
  obtain ⟨pace₁, hdescription⟩ := readDescription_eq journal hread₁ hkind hrecord hlarge hend
  rw [readChunks, Run.bind_of_ok hdescription]
  rcases findData_cases (journal.noteDescription dheader d) (hread₁.movedTo hend pace₁) with
    ⟨body, hbody⟩ | ⟨e, scan, herror, hmalformed⟩
  case inr =>
    exact .inr ⟨e, scan, Run.bind_of_error (x := (findData _ : ScanM Nat)) herror, hmalformed⟩
  -- The body stands behind what the description chunk declares, so that all of it is there.
  have htail := Bytes.drop_add_of_append (Bytes.drop_add_of_append hrecord
    (ChunkHeader.length_toBytes _)) (Description.length_toBytes d)
  have hbehind : tail.drop (dheader.size.toInt.toNat - descriptionSize) = body.toBytes := by
    have hsplit : descriptionSize + (dheader.size.toInt.toNat - descriptionSize) =
        dheader.size.toInt.toNat := by
      omega
    rw [← htail, ← hbody, List.drop_drop, Nat.add_assoc, hsplit]
    rfl
  have hbytes : store.content = header.toBytes ++ (dheader.toBytes ++ (d.toBytes ++ tail)) := by
    rw [← hrecord, Store.movedTo_content, Store.movedTo_cursor, hdrop]
    exact hcontent
  exact .inl (Layout.exists_of_records hmarker hkind hlarge hbytes hbehind)

/-- Where the bytes are no container, no header is read. The layout is at fault, unless the medium
lacks an offset that is declared. -/
theorem read_cases (journal : Journal) (hread : store.Readable) :
    (∃ l : Layout, store.content = l.toBytes) ∨
    ∃ e scan, read ⟨store, journal⟩ = .error e scan ∧
      (2 ^ 64 - 1 ≤ store.medium.reach → store.bytes.size < 2 ^ 63 →
        ∃ cause offset, e = .malformed cause offset) := by
  rw [read_eq _ hread, readParts]
  rcases readMarked_cases journal hread with
    ⟨header, rest, hmarker, hcontent⟩ | ⟨cause, offset, scan, herror⟩
  case inr => exact .inr ⟨_, scan, Run.bind_of_error herror, fun _ _ => ⟨cause, offset, rfl⟩⟩
  obtain ⟨pace, hmarked⟩ := readMarked_eq journal hread hcontent hmarker
  rw [Run.bind_of_ok hmarked]
  rcases readChunks_cases (journal.noteFileHeader header) hread hmarker hcontent pace with
    hlayout | ⟨e, scan, herror, hmalformed⟩
  · exact .inl hlayout
  · exact .inr ⟨e, scan, Run.bind_of_error herror, hmalformed⟩

end Header

/-! ## Opening -/

namespace Reader

/-- A container whose description makes sense is opened. -/
theorem ofStore_of_describes (hread : store.Readable) {l : Layout}
    (hcontent : store.content = l.toBytes) {rate : UInt32} {encoding : Encoding}
    (hdescribes : l.description.Describes rate encoding) :
    ∃ pace, ofStore store = .ok (l.reader rate encoding) (store.movedTo l.start pace) := by
  obtain ⟨pace, hheader⟩ := Header.read_of_layout hread hcontent
  have hlength : store.bytes.size - l.start = l.body.samples.length := by
    rw [← Store.length_content, hcontent, Layout.length_toBytes, Nat.add_sub_cancel_left]
  rw [Run.bind_of_ok (Header.streamOf_of_describes hdescribes), hlength] at hheader
  refine ⟨pace, ?_⟩
  rw [ofStore, hheader]
  rfl

/-- A header that cannot be read is not opened. -/
theorem ofStore_of_error {e : Error} {scan : Scan}
    (h : Header.read ⟨store, .empty⟩ = .error e scan) : ofStore store = .error e scan.store := by
  rw [ofStore, h]

/-- A container whose rate or whose channels cannot be is a fault in the layout. -/
theorem ofStore_of_invalid (hread : store.Readable) {l : Layout}
    (hcontent : store.content = l.toBytes)
    (hinvalid : Header.wholeRate? l.description.sampleRate = none ∨
      l.description.channelsPerFrame = 0) :
    ∃ cause offset store', ofStore store = .error (.malformed cause offset) store' := by
  obtain ⟨pace, hheader⟩ := Header.read_of_layout hread hcontent
  obtain ⟨cause, offset, hstream⟩ := Header.streamOf_of_invalid hinvalid
  rw [Run.bind_of_error hstream] at hheader
  exact ⟨cause, offset, _, ofStore_of_error hheader⟩

/-- A container that is well-formed and of an unknown encoding is not supported. -/
theorem ofStore_of_unknown (hread : store.Readable) {l : Layout}
    (hcontent : store.content = l.toBytes) {rate : UInt32}
    (hrate : Header.wholeRate? l.description.sampleRate = some rate)
    (hchannels : l.description.channelsPerFrame ≠ 0) (hencoding : l.description.encoding? = none) :
    ∃ cause store', ofStore store = .error (.unsupported cause) store' := by
  obtain ⟨pace, hheader⟩ := Header.read_of_layout hread hcontent
  obtain ⟨cause, scan, hstream⟩ := Header.streamOf_of_unknown hrate hchannels hencoding
  rw [Run.bind_of_error hstream] at hheader
  exact ⟨cause, _, ofStore_of_error hheader⟩

/-- A store that holds no container is a fault in the layout. -/
theorem ofStore_of_ne (hread : store.Readable) (hreach : 2 ^ 64 - 1 ≤ store.medium.reach)
    (hsize : store.bytes.size < 2 ^ 63) (hne : ∀ l : Layout, store.content ≠ l.toBytes) :
    ∃ cause offset store', ofStore store = .error (.malformed cause offset) store' := by
  rcases Header.read_cases .empty hread with ⟨l, hl⟩ | ⟨e, scan, herror, hmalformed⟩
  · exact absurd hl (hne l)
  · obtain ⟨cause, offset, rfl⟩ := hmalformed hreach hsize
    exact ⟨cause, offset, _, ofStore_of_error herror⟩

/-- What is opened is a container `l` whose description makes sense, whatever offsets the medium
has. -/
theorem layout_of_ofStore (hread : store.Readable) {reader : Reader} {opened : Store}
    (h : ofStore store = .ok reader opened) :
    ∃ (l : Layout) (rate : UInt32) (encoding : Encoding) (pace : List Turn),
      store.content = l.toBytes ∧ l.description.Describes rate encoding ∧
      reader = l.reader rate encoding ∧ opened = store.movedTo l.start pace := by
  rcases Header.read_cases .empty hread with ⟨l, hl⟩ | ⟨e, scan, herror, -⟩
  case inr =>
    rw [ofStore_of_error herror] at h
    cases h
  rcases l.description.describes_cases with
    ⟨rate, encoding, hd⟩ | hinvalid | ⟨rate, hrate, hchannels, hencoding⟩
  · obtain ⟨pace, hok⟩ := ofStore_of_describes hread hl hd
    rw [hok] at h
    cases h
    exact ⟨l, rate, encoding, pace, hl, hd, rfl, rfl⟩
  · obtain ⟨cause, offset, store'', herror⟩ := ofStore_of_invalid hread hl hinvalid
    rw [herror] at h
    cases h
  · obtain ⟨cause, store'', herror⟩ := ofStore_of_unknown hread hl hrate hchannels hencoding
    rw [herror] at h
    cases h

/-- To open a container reads its `header` and keeps what it says. -/
theorem ofStore_eq_ok_iff {reader : Reader} {opened : Store} :
    ofStore store = .ok reader opened ↔
      ∃ header scan, Header.read ⟨store, .empty⟩ = .ok header scan ∧
        reader = ⟨header, header.stream.region, scan.journal⟩ ∧ opened = scan.store := by
  unfold ofStore
  cases Header.read ⟨store, .empty⟩ with
  | error e scan => simp
  | ok header scan =>
    constructor
    · rintro ⟨rfl, rfl⟩
      exact ⟨header, scan, rfl, rfl, rfl⟩
    · rintro ⟨_, _, ⟨rfl, rfl⟩, rfl, rfl⟩
      rfl

/-- Opening fails where the header cannot be read. -/
theorem ofStore_eq_error_iff {e : Error} {left : Store} :
    ofStore store = .error e left ↔
      ∃ scan, Header.read ⟨store, .empty⟩ = .error e scan ∧ left = scan.store := by
  unfold ofStore
  cases Header.read ⟨store, .empty⟩ with
  | ok header scan => simp
  | error cause scan =>
    constructor
    · rintro ⟨rfl, rfl⟩
      exact ⟨scan, rfl, rfl⟩
    · rintro ⟨_, ⟨rfl, rfl⟩, rfl⟩
      rfl

/-- To open `store` succeeds exactly where its bytes are a container whose description makes sense,
a `Layout` that `Describes` an encoding. A description without an encoding makes the container
unsupported; whatever else is wrong is a fault in the layout. -/
theorem ofStore_eq_ok_iff_layout (hread : store.Readable)
    (hreach : 2 ^ 64 - 1 ≤ store.medium.reach) (hsize : store.bytes.size < 2 ^ 63) :
    ((∃ reader store', ofStore store = .ok reader store') ↔
      ∃ l : Layout, store.content = l.toBytes ∧
        ∃ rate encoding, l.description.Describes rate encoding) ∧
    (∀ l : Layout, store.content = l.toBytes →
      (∀ rate encoding, l.description.Describes rate encoding →
        (∃ pace, ofStore store = .ok (l.reader rate encoding) (store.movedTo l.start pace)) ∧
        l.start = 36 + (descriptionSize + l.surplus.length) + Chunk.lengths l.body.passed) ∧
      ((Header.wholeRate? l.description.sampleRate = none ∨ l.description.channelsPerFrame = 0) →
        ∃ cause offset store', ofStore store = .error (.malformed cause offset) store') ∧
      (∀ rate, Header.wholeRate? l.description.sampleRate = some rate →
        l.description.channelsPerFrame ≠ 0 → l.description.encoding? = none →
        ∃ cause store', ofStore store = .error (.unsupported cause) store')) ∧
    ((∀ l : Layout, store.content ≠ l.toBytes) →
      ∃ cause offset store', ofStore store = .error (.malformed cause offset) store') := by
  refine ⟨⟨?_, ?_⟩, fun l hl => ⟨fun rate encoding hd => ⟨ofStore_of_describes hread hl hd,
    l.start_eq⟩, ofStore_of_invalid hread hl, fun rate => ofStore_of_unknown hread hl⟩,
    ofStore_of_ne hread hreach hsize⟩
  -- Whatever is no container that makes sense is refused, and a store is not both.
  · rintro ⟨reader, store', hok⟩
    by_cases hlayout : ∃ l : Layout, store.content = l.toBytes
    case neg =>
      obtain ⟨cause, offset, store'', herror⟩ :=
        ofStore_of_ne hread hreach hsize fun l hl => hlayout ⟨l, hl⟩
      rw [herror] at hok
      cases hok
    obtain ⟨l, hl⟩ := hlayout
    rcases l.description.describes_cases with
      ⟨rate, encoding, hd⟩ | hinvalid | ⟨rate, hrate, hchannels, hencoding⟩
    · exact ⟨l, hl, rate, encoding, hd⟩
    · obtain ⟨cause, offset, store'', herror⟩ := ofStore_of_invalid hread hl hinvalid
      rw [herror] at hok
      cases hok
    · obtain ⟨cause, store'', herror⟩ := ofStore_of_unknown hread hl hrate hchannels hencoding
      rw [herror] at hok
      cases hok
  · rintro ⟨l, hl, rate, encoding, hd⟩
    obtain ⟨pace, hok⟩ := ofStore_of_describes hread hl hd
    exact ⟨_, _, hok⟩

/-- A container with a padded description and a chunk in front of its samples is opened. -/
theorem ofStore_eq_ok_of_padded_layout :
    ∃ (l : Layout) (store : Store), store.content = l.toBytes ∧ store.Readable ∧
      2 ^ 64 - 1 ≤ store.medium.reach ∧ store.bytes.size < 2 ^ 63 ∧
      l.description.Describes 44100 .pcm16 ∧ l.start = 84 ∧
      ∃ pace, ofStore store = .ok (l.reader 44100 .pcm16) (store.movedTo l.start pace) := by
  let description : Description :=
    ⟨⟨0x40E5888000000000⟩, Description.lpcm, 0, 2, 1, 1, 16⟩
  let body : Layout.Body :=
    ⟨[⟨.ofChars 'f' 'r' 'e' 'e', [1, 2, 3], by decide⟩], -1, 0, [7, 8], by decide⟩
  let l : Layout := ⟨1, 0, description, [9], body, by decide⟩
  let store : Store := { bytes := ⟨l.toBytes.toArray⟩ }
  have hlength : store.bytes.size = 86 := l.length_toBytes
  have hreach : 2 ^ 64 - 1 ≤ store.medium.reach := Nat.le_refl _
  have hread : store.Readable :=
    ⟨rfl, rfl, rfl, Nat.zero_le _, by rw [hlength]; exact Nat.le_trans (by decide) hreach⟩
  have hsize : store.bytes.size < 2 ^ 63 := by
    rw [hlength]
    decide
  have hdescribes : l.description.Describes 44100 .pcm16 := ⟨by decide, by decide, by decide⟩
  have hopen := (ofStore_eq_ok_iff_layout hread hreach hsize).2.1 l rfl
  exact ⟨l, store, rfl, hread, hreach, hsize, hdescribes, rfl, (hopen.1 _ _ hdescribes).1⟩

end Reader

end Caf
