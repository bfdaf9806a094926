import Caf.Proofs.Record.Parsing
import Caf.Proofs.Store.Reading

/-!
# Reading and writing undo each other

Each record of a header has a fixed size, a reader and a writer. The three records are built from
fields of two, four and eight bytes, and what has to be known about a record is the same as for a
field: it is read back from what was written, every byte string of its size is what is written for
some value, and from fewer bytes nothing is read. From these laws the rest follows: reading takes
exactly the bytes that writing gives back.

A chunk header is the one record that is not read back for every value, since a known type can also
be spelled as a code that is kept as it is. It is read back for each type that a code names.

## Main definitions

* `Record.Exact`: the laws of a field or a record;
* `Store.readRecord`: a record read at the cursor of a store, with the failures of the device;
* `Record.Inverse`: reading and writing undo each other, on byte strings and at a cursor.

## Main results

* `Record.Exact.bind_eq_none`: a reader of two parts needs the bytes of both;
* `FileHeader.exact`, `ChunkHeader.exact`, `Description.exact`: the laws of the three records;
* `Record.Exact.inverse`: what follows from the laws;
* `Record.codecs_invert`: reading and writing undo each other for the three records.
-/

namespace Caf

variable {α β : Type}

/-! ## Laws of a record -/

/-- The laws of a field or a record of `size` bytes. `Named` has the values that are read back. -/
structure Record.Exact (size : Nat) (toBytes : α → Bytes) (read? : Bytes → Option (α × Bytes))
    (Named : α → Prop) : Prop where
  /-- What is written has the size. -/
  length_toBytes : ∀ x, (toBytes x).length = size
  /-- What is written is read back, and nothing behind it is touched. -/
  read?_append : ∀ x rest, Named x → read? (toBytes x ++ rest) = some (x, rest)
  /-- Every byte string of the size is written for some value. -/
  exists_toBytes : ∀ bytes, bytes.length = size → ∃ x, Named x ∧ bytes = toBytes x
  /-- From fewer bytes nothing is read. -/
  read?_short : ∀ bytes, bytes.length < size → read? bytes = none

namespace Record.Exact

variable {size : Nat} {toBytes : α → Bytes} {read? : Bytes → Option (α × Bytes)}
  {Named : α → Prop} {bytes rest : Bytes} {x : α}

/-- The laws of a record of which `read?` reads every value back. -/
theorem of_total (hlength : ∀ x, (toBytes x).length = size)
    (happend : ∀ x rest, read? (toBytes x ++ rest) = some (x, rest))
    (hexists : ∀ {bytes : Bytes}, bytes.length = size → ∃ x, bytes = toBytes x)
    (hshort : ∀ bytes, bytes.length < size → read? bytes = none) :
    Exact size toBytes read? fun _ => True where
  length_toBytes := hlength
  read?_append x rest _ := happend x rest
  exists_toBytes bytes h := by
    obtain ⟨x, hx⟩ := hexists h
    exact ⟨x, trivial, hx⟩
  read?_short := hshort

/-- From enough bytes a value is read. It takes `size` bytes, which are those that are written for
it. -/
theorem exists_read? (h : Exact size toBytes read? Named) (hlong : size ≤ bytes.length) :
    ∃ x, Named x ∧ read? bytes = some (x, bytes.drop size) ∧ toBytes x = bytes.take size := by
  have htake : (bytes.take size).length = size := by
    rw [List.length_take, Nat.min_eq_left hlong]
  obtain ⟨x, hnamed, hx⟩ := h.exists_toBytes _ htake
  refine ⟨x, hnamed, ?_, hx.symm⟩
  have hread := h.read?_append x (bytes.drop size) hnamed
  rwa [← hx, List.take_append_drop] at hread

/-- What `read?` has read stands in front of the `rest`. -/
theorem eq_append (h : Exact size toBytes read? Named) (hread : read? bytes = some (x, rest)) :
    bytes = toBytes x ++ rest := by
  rcases Nat.lt_or_ge bytes.length size with hshort | hlong
  · rw [h.read?_short bytes hshort] at hread
    cases hread
  · obtain ⟨x', -, hread', hx'⟩ := h.exists_read? hlong
    obtain ⟨rfl, rfl⟩ := Prod.mk.inj (Option.some.inj (hread'.symm.trans hread))
    rw [hx', List.take_append_drop]

/-- A reader of two parts reads nothing where the `size` bytes of the one and as many as `behind` of
the other are not there. -/
theorem bind_eq_none (h : Exact size toBytes read? Named) (behind : Nat)
    {next : α × Bytes → Option β}
    (hnext : ∀ x rest, rest.length < behind → next (x, rest) = none)
    (hshort : bytes.length < size + behind) : (read? bytes >>= next) = none := by
  cases hread : read? bytes with
  | none => rfl
  | some found =>
    obtain ⟨x, rest⟩ := found
    have hlength := congrArg List.length (h.eq_append hread)
    rw [List.length_append, h.length_toBytes] at hlength
    exact hnext x rest (by omega)

end Record.Exact

/-! ## Fields -/

theorem FourCC.exact : Record.Exact 4 FourCC.toBytes FourCC.read? fun _ => True := by
  refine .of_total FourCC.length_toBytes FourCC.read?_toBytes_append FourCC.exists_toBytes ?_
  intro bytes h
  match bytes, h with
  | [], _ | [_], _ | [_, _], _ | [_, _, _], _ => rfl

/-- The laws of a field, for every type of numbers that is a `Field.Word`. -/
theorem Field.be_exact [Field.Word α] :
    Record.Exact (Field.Word.width α) Field.be Field.be? fun _ : α => True :=
  .of_total length_be be?_append exists_be fun _ => be?_of_short

/-! ## Records -/

theorem FileHeader.exact :
    Record.Exact fileHeaderSize FileHeader.toBytes FileHeader.read? fun _ => True := by
  refine .of_total FileHeader.length_toBytes FileHeader.read?_toBytes_append
    FileHeader.exists_toBytes fun bytes h => ?_
  -- One field after the other is there, or the bytes have ended.
  refine FourCC.exact.bind_eq_none 4 (fun _ _ h => ?_) h
  refine (Field.be_exact (α := UInt16)).bind_eq_none 2 (fun _ _ h => ?_) h
  exact (Field.be_exact (α := UInt16)).bind_eq_none 0 (fun _ _ h => absurd h (Nat.not_lt_zero _)) h

/-- A chunk header is read back for the types that codes name. -/
theorem ChunkHeader.exact :
    Record.Exact chunkHeaderSize ChunkHeader.toBytes ChunkHeader.read?
      fun header => ∃ code, header.kind = ChunkKind.ofCode code where
  length_toBytes := ChunkHeader.length_toBytes
  read?_append := by
    rintro ⟨_, size⟩ rest ⟨code, rfl⟩
    exact ChunkHeader.read?_toBytes_append code size rest
  exists_toBytes bytes h := by
    obtain ⟨code, size, hheader⟩ := ChunkHeader.exists_toBytes h
    exact ⟨_, ⟨code, rfl⟩, hheader⟩
  read?_short bytes h := by
    refine FourCC.exact.bind_eq_none 8 (fun _ _ h => ?_) h
    exact (Field.be_exact (α := UInt64)).bind_eq_none 0
      (fun _ _ h => absurd h (Nat.not_lt_zero _)) h

/-- A known type that is spelled as a code is read back as the known type. -/
example : ChunkHeader.read? (ChunkHeader.toBytes ⟨.other ChunkKind.data.code, -1⟩) =
    some (⟨.data, -1⟩, []) := by
  decide

theorem Description.exact :
    Record.Exact descriptionSize Description.toBytes Description.read? fun _ => True := by
  refine .of_total Description.length_toBytes Description.read?_toBytes_append
    Description.exists_toBytes fun bytes h => ?_
  refine (Field.be_exact (α := UInt64)).bind_eq_none 24 (fun _ _ h => ?_) h
  refine FourCC.exact.bind_eq_none 20 (fun _ _ h => ?_) h
  refine (Field.be_exact (α := UInt32)).bind_eq_none 16 (fun _ _ h => ?_) h
  refine (Field.be_exact (α := UInt32)).bind_eq_none 12 (fun _ _ h => ?_) h
  refine (Field.be_exact (α := UInt32)).bind_eq_none 8 (fun _ _ h => ?_) h
  refine (Field.be_exact (α := UInt32)).bind_eq_none 4 (fun _ _ h => ?_) h
  exact (Field.be_exact (α := UInt32)).bind_eq_none 0 (fun _ _ h => absurd h (Nat.not_lt_zero _)) h

/-! ## Records at a cursor -/

namespace Store

/-- Reads a record of `size` bytes at the cursor. -/
def readRecord (size : Nat) (read? : Bytes → Option (α × Bytes)) : StoreM α := do
  let bytes ← readExact size
  match read? bytes.data.toList with
  | some (x, _) => pure x
  | none => throw .endOfBytes

/-- Reading `part` of a header is reading a record whose failures get their meaning from where they
happen. -/
theorem record_eq_explaining (part : HeaderPart) (offset size : Nat)
    (read? : Bytes → Option (α × Bytes)) :
    record part offset size read? =
      explaining (Error.whileReading part offset) (readRecord size read?) := by
  funext store
  cases hexact : readExact size store with
  | error e left =>
    have hread : readRecord size read? store = .error e left := Run.bind_of_error hexact
    rw [explaining_of_error hread]
    exact Run.bind_of_error (explaining_of_error hexact)
  | ok bytes left =>
    rw [record, Run.bind_of_ok (explaining_of_ok hexact), explaining, readRecord,
      Run.bind_of_ok hexact]
    cases read? bytes.data.toList <;> rfl

end Store

namespace Record

/-- Reading and writing a record undo each other: what `toBytes` writes is read back, and what is
read from a byte string is written as the bytes that `read?` has taken. From too few bytes reading
fails for want of bytes. -/
structure Inverse (size : Nat) (toBytes : α → Bytes) (read? : Bytes → Option (α × Bytes))
    (Named : α → Prop) : Prop where
  /-- What is written is read back, and nothing behind it is touched. -/
  read_written : ∀ x rest, Named x → read? (toBytes x ++ rest) = some (x, rest)
  /-- What is read from enough bytes is written as the leading ones, and the others are left. -/
  write_read : ∀ bytes, size ≤ bytes.length →
    ∃ x, Named x ∧ read? bytes = some (x, bytes.drop size) ∧ toBytes x = bytes.take size
  /-- From fewer bytes nothing is read. -/
  read_short : ∀ bytes, bytes.length < size → read? bytes = none
  /-- At the cursor of a store the bytes from there on are read. Where they are enough the cursor
  moves by the size and no further, and where they are not the bytes have ended. -/
  read_store : ∀ store : Store, store.faults.bad = none → ∃ pace,
    Store.readRecord size read? store =
      match read? (store.content.drop store.cursor) with
      | some (x, _) => .ok x (store.movedTo (store.cursor + size) pace)
      | none => .error .endOfBytes
          (store.movedTo (store.cursor + (store.bytes.size - store.cursor)) pace)

/-- Reading and writing undo each other by the laws of `Record.Exact`. -/
theorem Exact.inverse {size : Nat} {toBytes : α → Bytes} {read? : Bytes → Option (α × Bytes)}
    {Named : α → Prop} (h : Exact size toBytes read? Named) :
    Inverse size toBytes read? Named where
  read_written := h.read?_append
  write_read _ hlong := h.exists_read? hlong
  read_short := h.read?_short
  read_store store hbad := by
    have hleft : (store.content.drop store.cursor).length = store.bytes.size - store.cursor := by
      rw [List.length_drop, Store.length_content]
    rcases Nat.lt_or_ge (store.bytes.size - store.cursor) size with hshort | hlong
    · obtain ⟨pace, hexact⟩ := Store.readExact_eq_error hbad hshort
      refine ⟨pace, ?_⟩
      rw [h.read?_short _ (hleft ▸ hshort), Store.readRecord]
      exact Run.bind_of_error hexact
    · obtain ⟨pace, hexact⟩ := Store.readExact_eq hbad size hlong
      obtain ⟨x, hnamed, hread, hx⟩ := h.exists_read? (hleft ▸ hlong)
      refine ⟨pace, ?_⟩
      -- What has been fetched is what is written for the value, and nothing is left of it.
      have hfetched : (Store.slice store.bytes store.cursor size).data.toList =
          toBytes x ++ [] := by
        rw [Store.toList_slice, List.append_nil, hx]
        rfl
      rw [hread, Store.readRecord, Run.bind_of_ok hexact, hfetched, h.read?_append x [] hnamed]
      rfl

/-- Reading and writing undo each other for `FileHeader`, `ChunkHeader` and `Description`, whatever
is in their fields; of the types of chunks for those that codes name. A type that is named by a code
has that code. Where a record is cut off the device reports the end of its bytes, and the error of
the library says in which part of the header that happened. -/
theorem codecs_invert :
    Inverse 8 FileHeader.toBytes FileHeader.read? (fun _ => True) ∧
      Inverse 12 ChunkHeader.toBytes ChunkHeader.read?
        (fun header => ∃ code, header.kind = ChunkKind.ofCode code) ∧
      Inverse 32 Description.toBytes Description.read? (fun _ => True) ∧
      (∀ code, (ChunkKind.ofCode code).code = code) ∧
      DeviceError.endOfBytes.kind = .unexpectedEof ∧
      ∀ {α : Type} (part : HeaderPart) (offset size : Nat) (read? : Bytes → Option (α × Bytes)),
        Store.record part offset size read? =
          Store.explaining (Error.whileReading part offset) (Store.readRecord size read?) :=
  ⟨FileHeader.exact.inverse, ChunkHeader.exact.inverse, Description.exact.inverse,
    ChunkKind.code_ofCode, rfl, Store.record_eq_explaining⟩

/-- A type that has no name with the least size there is, a rate that is no number, and a file
header of which one byte is missing behind a cursor. -/
theorem codecs_invert_of_extremes :
    ChunkHeader.read? (ChunkHeader.toBytes ⟨.ofCode ⟨0, 0x5C, 0xFF, 0x20⟩, Int64.minValue⟩ ++ [7]) =
        some (⟨.ofCode ⟨0, 0x5C, 0xFF, 0x20⟩, Int64.minValue⟩, [7]) ∧
      Description.read? (Description.toBytes ⟨⟨0x7FF8DEADBEEF0001⟩, ⟨1, 2, 3, 4⟩, 0xFFFFFFFF, 0, 1,
          2, 3⟩ ++ []) =
        some (⟨⟨0x7FF8DEADBEEF0001⟩, ⟨1, 2, 3, 4⟩, 0xFFFFFFFF, 0, 1, 2, 3⟩, []) ∧
      ∃ pace, Store.readRecord 8 FileHeader.read?
          { bytes := ⟨#[0, 0x63, 0x61, 0x66, 0x66, 0, 1, 0]⟩, cursor := 1 } =
        .error .endOfBytes (Store.movedTo
          { bytes := ⟨#[0, 0x63, 0x61, 0x66, 0x66, 0, 1, 0]⟩, cursor := 1 } 8 pace) := by
  obtain ⟨hfile, hchunk, hdescription, -⟩ := codecs_invert
  exact ⟨hchunk.read_written _ _ ⟨⟨0, 0x5C, 0xFF, 0x20⟩, rfl⟩,
    hdescription.read_written _ _ trivial,
    hfile.read_store _ rfl⟩

end Record

end Caf
