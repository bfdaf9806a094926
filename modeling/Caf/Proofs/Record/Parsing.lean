import Caf.Sample.Description

/-!
# Every byte string is a record

The records of a header have fixed sizes and no forbidden values, so every byte string of the right
size is the stored form of one of them. Reading a header can therefore only fail for want of bytes,
and what has been read can be written back.

## Main results

* `FileHeader.exists_toBytes`, `ChunkHeader.exists_toBytes`, `Description.exists_toBytes`: a byte
  string of the size of a record is the stored form of a record;
* `ChunkHeader.induction`: induction over the chunk headers in a byte string.
-/

namespace Caf

/-- Every four bytes are a code. -/
theorem FourCC.exists_toBytes {bytes : Bytes} (h : bytes.length = 4) :
    ∃ code : FourCC, bytes = code.toBytes := by
  match bytes, h with
  | [b0, b1, b2, b3], _ => exact ⟨⟨b0, b1, b2, b3⟩, rfl⟩

/-- A byte string is a `field` of some `width` and the bytes behind it. -/
theorem Bytes.exists_append {bytes : Bytes} (width rest : Nat)
    (h : bytes.length = width + rest) :
    ∃ field tail, bytes = field ++ tail ∧ field.length = width ∧ tail.length = rest :=
  ⟨bytes.take width, bytes.drop width, (List.take_append_drop width bytes).symm,
    by rw [List.length_take]; omega, by rw [List.length_drop]; omega⟩

/-- Every eight bytes are a file header. -/
theorem FileHeader.exists_toBytes {bytes : Bytes} (h : bytes.length = fileHeaderSize) :
    ∃ header : FileHeader, bytes = header.toBytes := by
  obtain ⟨marker, bytes, rfl, hmarker, h⟩ := Bytes.exists_append 4 4 h
  obtain ⟨version, flags, rfl, hversion, hflags⟩ := Bytes.exists_append 2 2 h
  obtain ⟨marker, rfl⟩ := FourCC.exists_toBytes hmarker
  obtain ⟨version, rfl⟩ := Field.exists_be (α := UInt16) hversion
  obtain ⟨flags, rfl⟩ := Field.exists_be (α := UInt16) hflags
  exact ⟨⟨marker, version, flags⟩, by simp [toBytes]⟩

/-- Every twelve bytes are a chunk header. -/
theorem ChunkHeader.exists_toBytes {bytes : Bytes} (h : bytes.length = chunkHeaderSize) :
    ∃ code size, bytes = toBytes ⟨ChunkKind.ofCode code, size⟩ := by
  obtain ⟨code, size, rfl, hcode, hsize⟩ := Bytes.exists_append 4 8 h
  obtain ⟨code, rfl⟩ := FourCC.exists_toBytes hcode
  obtain ⟨size, rfl⟩ := Field.exists_be (α := UInt64) hsize
  exact ⟨code, size.toInt64, by simp [toBytes]⟩

/-- Every thirty-two bytes are a description record. -/
theorem Description.exists_toBytes {bytes : Bytes} (h : bytes.length = descriptionSize) :
    ∃ d : Description, bytes = d.toBytes := by
  -- Every field takes its width from the front and leaves the widths of the others.
  obtain ⟨rate, bytes, rfl, hrate, h⟩ := Bytes.exists_append 8 24 h
  obtain ⟨formatId, bytes, rfl, hformatId, h⟩ := Bytes.exists_append 4 20 h
  obtain ⟨formatFlags, bytes, rfl, hformatFlags, h⟩ := Bytes.exists_append 4 16 h
  obtain ⟨packet, bytes, rfl, hpacket, h⟩ := Bytes.exists_append 4 12 h
  obtain ⟨frames, bytes, rfl, hframes, h⟩ := Bytes.exists_append 4 8 h
  obtain ⟨channels, bits, rfl, hchannels, hbits⟩ := Bytes.exists_append 4 4 h
  obtain ⟨rate, rfl⟩ := Field.exists_be (α := UInt64) hrate
  obtain ⟨formatId, rfl⟩ := FourCC.exists_toBytes hformatId
  obtain ⟨formatFlags, rfl⟩ := Field.exists_be (α := UInt32) hformatFlags
  obtain ⟨packet, rfl⟩ := Field.exists_be (α := UInt32) hpacket
  obtain ⟨frames, rfl⟩ := Field.exists_be (α := UInt32) hframes
  obtain ⟨channels, rfl⟩ := Field.exists_be (α := UInt32) hchannels
  obtain ⟨bits, rfl⟩ := Field.exists_be (α := UInt32) hbits
  exact ⟨⟨⟨rate⟩, formatId, formatFlags, packet, frames, channels, bits⟩,
    by simp only [toBytes, List.append_assoc]⟩

/-! ## Records in front of other bytes -/

/-- A byte string of `width` bytes or more has a `field` in front. -/
theorem Bytes.exists_append_of_le {bytes : Bytes} {width : Nat} (h : width ≤ bytes.length) :
    ∃ field tail, bytes = field ++ tail ∧ field.length = width := by
  obtain ⟨rest, hrest⟩ := Nat.exists_eq_add_of_le h
  obtain ⟨field, tail, happend, hwidth, -⟩ := Bytes.exists_append width rest hrest
  exact ⟨field, tail, happend, hwidth⟩

/-- A field that stands at `offset` ends within the bytes. -/
theorem Bytes.add_length_le_of_drop {bytes field rest : Bytes} {offset width : Nat}
    (h : bytes.drop offset = field ++ rest) (hwidth : field.length = width) (hpos : 0 < width) :
    offset + width ≤ bytes.length := by
  have hlength := congrArg List.length h
  rw [List.length_drop, List.length_append] at hlength
  omega

/-- What stands in front of a `tail` that is there is there as a whole. -/
theorem Bytes.exists_append_of_drop {bytes tail : Bytes} {width : Nat}
    (h : bytes.drop width = tail) (htail : tail ≠ []) :
    ∃ field, bytes = field ++ tail ∧ field.length = width := by
  have hlong : width < bytes.length := by
    have hpos := List.length_pos_iff.2 htail
    rw [← h, List.length_drop] at hpos
    omega
  refine ⟨bytes.take width, ?_, ?_⟩
  · rw [← h, List.take_append_drop]
  · rw [List.length_take, Nat.min_eq_left (Nat.le_of_lt hlong)]

theorem Field.exists_be_append {α : Type} [Word α] {bytes : Bytes}
    (h : Word.width α ≤ bytes.length) : ∃ (x : α) (rest : Bytes), bytes = be x ++ rest := by
  obtain ⟨field, rest, rfl, hwidth⟩ := Bytes.exists_append_of_le h
  obtain ⟨x, rfl⟩ := exists_be hwidth
  exact ⟨x, rest, rfl⟩

theorem FileHeader.exists_toBytes_append {bytes : Bytes} (h : fileHeaderSize ≤ bytes.length) :
    ∃ (header : FileHeader) (rest : Bytes), bytes = header.toBytes ++ rest := by
  obtain ⟨field, rest, rfl, hwidth⟩ := Bytes.exists_append_of_le h
  obtain ⟨header, rfl⟩ := exists_toBytes hwidth
  exact ⟨header, rest, rfl⟩

theorem ChunkHeader.exists_toBytes_append {bytes : Bytes} (h : chunkHeaderSize ≤ bytes.length) :
    ∃ code size rest, bytes = toBytes ⟨ChunkKind.ofCode code, size⟩ ++ rest := by
  obtain ⟨field, rest, rfl, hwidth⟩ := Bytes.exists_append_of_le h
  obtain ⟨code, size, rfl⟩ := exists_toBytes hwidth
  exact ⟨code, size, rest, rfl⟩

/-- A chunk header and the `rest` behind it are told by the bytes. -/
theorem ChunkHeader.eq_of_append {code code' : FourCC} {size size' : Int64} {rest rest' : Bytes}
    (h : toBytes ⟨ChunkKind.ofCode code, size⟩ ++ rest =
      toBytes ⟨ChunkKind.ofCode code', size'⟩ ++ rest') :
    ChunkKind.ofCode code = ChunkKind.ofCode code' ∧ size = size' ∧ rest = rest' := by
  have hread := congrArg read? h
  rw [read?_toBytes_append, read?_toBytes_append] at hread
  simpa [and_assoc] using hread

/-- At `offset` there is a chunk header, or no room for one. -/
theorem ChunkHeader.exists_or_short (bytes : Bytes) (offset : Nat) :
    bytes.length < offset + chunkHeaderSize ∨
      ∃ code size rest, bytes.drop offset = toBytes ⟨ChunkKind.ofCode code, size⟩ ++ rest := by
  rcases Nat.lt_or_ge bytes.length (offset + chunkHeaderSize) with hshort | hfits
  · exact .inl hshort
  · right
    apply exists_toBytes_append
    rw [List.length_drop]
    omega

/-- Induction over the chunk headers in `bytes`, each of which stands behind what the one before it
declares: the `motive` is shown of an offset where there is no room for a header or where one
declares a negative size, and elsewhere from what stands behind the header. -/
theorem ChunkHeader.induction (bytes : Bytes) {motive : Nat → Prop}
    (short : ∀ offset, bytes.length < offset + chunkHeaderSize → motive offset)
    (last : ∀ offset code size rest,
      bytes.drop offset = (ChunkHeader.mk (.ofCode code) size).toBytes ++ rest → size < 0 →
      motive offset)
    (step : ∀ offset code size rest,
      bytes.drop offset = (ChunkHeader.mk (.ofCode code) size).toBytes ++ rest → ¬ size < 0 →
      motive (offset + (chunkHeaderSize + size.toInt.toNat)) → motive offset)
    (offset : Nat) : motive offset := by
  -- Every header takes the offset nearer to the end, or beyond it.
  induction hleft : bytes.length - offset using Nat.strongRecOn generalizing offset with
  | ind left ih =>
    rcases exists_or_short bytes offset with hshort | ⟨code, size, rest, hheader⟩
    · exact short offset hshort
    by_cases hneg : size < 0
    · exact last offset code size rest hheader hneg
    · apply step offset code size rest hheader hneg
      have hfits := Bytes.add_length_le_of_drop hheader (ChunkHeader.length_toBytes _) (by decide)
      refine ih _ ?_ _ rfl
      simp only [chunkHeaderSize] at hfits ⊢
      omega

theorem Description.exists_toBytes_append {bytes : Bytes} (h : descriptionSize ≤ bytes.length) :
    ∃ (d : Description) (rest : Bytes), bytes = d.toBytes ++ rest := by
  obtain ⟨field, rest, rfl, hwidth⟩ := Bytes.exists_append_of_le h
  obtain ⟨d, rfl⟩ := exists_toBytes hwidth
  exact ⟨d, rest, rfl⟩

end Caf
