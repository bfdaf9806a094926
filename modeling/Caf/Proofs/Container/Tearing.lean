import Caf.Proofs.Container.Breaking
import Caf.Proofs.Container.Roundtrip
import Mathlib.Data.List.Forall2

/-!
# No failure damages samples

Whatever fails, and whenever it starts or stops failing, the bytes behind the header are the bytes
that were taken, one write behind the other. A header that is written over another one may be torn:
some of its bytes are new and the rest are old. The two differ in the size that they declare and
nowhere else, so what is there is a header in any case, and a reader does not look at that size.

## Main definitions

* `Bytes.torn`: old bytes with new ones written over the front;
* `Writer.SamplesInvariant`: a writer has some samples in its store;
* `Writer.Kept`: what is kept of the bytes of a call.

## Main results

* `torn_headerBytes`: a torn header is a header;
* `Writer.samplesInvariant_call`, `Writer.samplesInvariant_follow`: what one call and what a run
  does to the samples;
* `Writer.follow_keeps_samples`: samples are never lost or damaged, and the store can be opened.
-/

namespace Caf

/-! ## Torn headers -/

namespace Bytes

/-- The bytes `old` with the first `count` bytes of `new` written over them. -/
def torn (count : Nat) (old new : Bytes) : Bytes :=
  new.take count ++ old.drop count

theorem torn_self (count : Nat) (bytes : Bytes) : torn count bytes bytes = bytes :=
  List.take_append_drop count bytes

theorem length_torn {old new : Bytes} (h : new.length = old.length) (count : Nat) :
    (torn count old new).length = old.length := by
  rw [torn, List.length_append, List.length_take, List.length_drop]
  omega

/-- The tear at `count` is in the first part or in the second. -/
theorem torn_append {old new : Bytes} (h : new.length = old.length) (count : Nat)
    (old' new' : Bytes) :
    torn count (old ++ old') (new ++ new') =
      torn count old new ++ torn (count - old.length) old' new' := by
  simp only [torn, List.take_append, List.drop_append, h]
  rcases Nat.le_total count old.length with hle | hle
  · rw [Nat.sub_eq_zero_of_le hle, List.take_zero, List.drop_zero, List.append_nil,
      List.nil_append, List.append_assoc]
  · rw [List.drop_of_length_le hle, List.nil_append, List.append_nil, List.append_assoc]

/-- Writing `taken` over the front of some bytes tears them. -/
theorem splice_zero {old new : Bytes} {taken rest : Bytes} (hnew : new = taken ++ rest)
    (hlength : new.length = old.length) (behind : Bytes) :
    splice (old ++ behind) 0 taken = torn taken.length old new ++ behind := by
  have hle : taken.length ≤ old.length := by
    rw [← hlength, hnew, List.length_append]
    omega
  rw [splice, torn, hnew, List.take_left, List.take_zero, List.nil_append, Nat.zero_add,
    List.drop_append_of_le_length hle, List.append_assoc]

end Bytes

/-- Headers for one description `d` differ in the declared size only, so a torn header is a header.
-/
theorem torn_headerBytes (count : Nat) (d : Description) (old new : Int64) :
    ∃ declared,
      Bytes.torn count (headerBytes d old) (headerBytes d new) = headerBytes d declared := by
  let lead := FileHeader.standard.toBytes ++
    (ChunkHeader.mk .description (Int64.ofNat descriptionSize)).toBytes ++ d.toBytes ++
    ChunkKind.data.code.toBytes
  have hparts (n : Int64) : headerBytes d n =
      lead ++ (Field.be64 n.toUInt64 ++ Field.be32 editCount) := by
    simp only [headerBytes, ChunkHeader.toBytes, lead, List.append_assoc]
  have hwidth : (Field.be64 new.toUInt64).length = (Field.be64 old.toUInt64).length := by
    rw [Field.length_be, Field.length_be]
  -- Eight bytes spell a size, wherever they come from.
  obtain ⟨size, hsize⟩ := Field.exists_be (α := UInt64)
    ((Bytes.length_torn hwidth (count - lead.length)).trans (Field.length_be _))
  refine ⟨size.toInt64, ?_⟩
  rw [hparts, hparts, hparts, Bytes.torn_append rfl, Bytes.torn_self, Bytes.torn_append hwidth,
    Bytes.torn_self, hsize, UInt64.toUInt64_toInt64]

/-- A part `taken` of a header that is written over another header leaves a header. -/
theorem splice_headerBytes {d : Description} (old : Int64) {new : Int64} {taken rest : Bytes}
    (h : headerBytes d new = taken ++ rest) (samples : Bytes) :
    ∃ declared, Bytes.splice (headerBytes d old ++ samples) 0 taken =
      headerBytes d declared ++ samples := by
  obtain ⟨declared, htorn⟩ := torn_headerBytes taken.length d old new
  refine ⟨declared, ?_⟩
  rw [Bytes.splice_zero h (by rw [length_headerBytes, length_headerBytes]), htorn]

/-! ## Stores with samples -/

namespace Store

variable {store store' : Store} {d : Description} {samples : Bytes}

/-- The store has a header for `d` and `samples` behind it, and does not claim to be longer than it
is. -/
structure HasSamples (store : Store) (d : Description) (samples : Bytes) : Prop where
  /-- The declared size can be anything. -/
  content : ∃ declared, store.content = headerBytes d declared ++ samples
  /-- The length is told truthfully. -/
  truthful : store.faults.phantom = 0

namespace HasSamples

theorem size (h : store.HasSamples d samples) : store.bytes.size = headerSize + samples.length := by
  obtain ⟨declared, hcontent⟩ := h.content
  exact size_of_header hcontent

theorem movedTo (h : store.HasSamples d samples) (cursor : Nat) (pace : List Turn) :
    (store.movedTo cursor pace).HasSamples d samples :=
  ⟨h.content, h.truthful⟩

theorem truthful_of_took (h : store.HasSamples d samples) {taken : Bytes}
    (htook : store.Took taken store') : store'.faults.phantom = 0 := by
  obtain ⟨pace, hfaults⟩ := htook.faults
  rw [hfaults]
  exact h.truthful

/-- From the start, a part `taken` of a header can be taken. -/
theorem of_took_header (h : store.HasSamples d samples) (hstart : store.cursor = 0) {new : Int64}
    {taken rest : Bytes} (hnew : headerBytes d new = taken ++ rest)
    (htook : store.Took taken store') : store'.HasSamples d samples := by
  obtain ⟨old, hcontent⟩ := h.content
  obtain ⟨declared, hsplice⟩ := splice_headerBytes old hnew samples
  refine ⟨⟨declared, ?_⟩, h.truthful_of_took htook⟩
  rw [htook.content, hcontent, hstart, hsplice]

/-- At the end, what is `taken` is appended. -/
theorem of_took_samples (h : store.HasSamples d samples)
    (hend : store.cursor = headerSize + samples.length) {taken : Bytes}
    (htook : store.Took taken store') : store'.HasSamples d (samples ++ taken) := by
  obtain ⟨declared, hcontent⟩ := h.content
  have hlast : store.cursor = store.content.length := by
    rw [hend, length_content, h.size]
  refine ⟨⟨declared, ?_⟩, h.truthful_of_took htook⟩
  rw [htook.content, hlast, Bytes.splice_length, hcontent, List.append_assoc]

end HasSamples

end Store

namespace Writer

variable {writer : Writer} {d : Description} {samples : Bytes}

/-- The writer of a stream described by `d` has `samples` behind its header. This is so in the
middle of a header write, too. -/
structure HasSamples (writer : Writer) (d : Description) (samples : Bytes) : Prop where
  /-- The stream is described. -/
  describe : writer.stream.describe = .ok d
  /-- The samples start behind the header. -/
  start : writer.stream.start = some headerSize
  /-- No more bytes are counted than there are. -/
  length_le : writer.stream.length ≤ samples.length
  /-- The bytes are there. -/
  store : writer.store.HasSamples d samples

/-- The cursor of the writer stands behind the last byte of `samples`. -/
def AtEnd (writer : Writer) (samples : Bytes) : Prop :=
  writer.store.cursor = headerSize + samples.length

/-- What every event preserves: a writer has `samples` in its store, and goes on behind them unless
it is broken. -/
structure SamplesInvariant (writer : Writer) (d : Description) (samples : Bytes) : Prop
    extends writer.HasSamples d samples where
  /-- A broken writer may have lost its place. -/
  atEnd : writer.broken = false → writer.AtEnd samples

theorem HasSamples.withStore (h : writer.HasSamples d samples) {store : Store}
    (hsamples : store.HasSamples d samples) :
    ({ writer with store } : Writer).HasSamples d samples :=
  ⟨h.describe, h.start, h.length_le, hsamples⟩

/-- A header write has failed, not for want of a writer that works, and `samples` are there. -/
def Survived (d : Description) (samples : Bytes) (e : Error) (writer : Writer) : Prop :=
  writer.HasSamples d samples ∧ e ≠ .broken

/-! ## Operations on the store -/

theorem ends_position (h : writer.HasSamples d samples) :
    Run.Ends (fun here left => here = writer.store.cursor ∧ left = writer) (Survived d samples)
      (onStore Store.position writer) := by
  refine ends_onStore ?_
  cases hop : Store.position writer.store with
  | ok here store =>
    obtain ⟨rfl, rfl⟩ := Store.position_ok hop
    exact ⟨rfl, rfl⟩
  | error e store =>
    obtain rfl := Store.position_error hop
    exact ⟨h, nofun⟩

theorem ends_flush (h : writer.HasSamples d samples) :
    Run.Ends (fun _ left => left = writer) (Survived d samples) (onStore Store.flush writer) := by
  refine ends_onStore ?_
  cases hop : Store.flush writer.store with
  | ok _ store =>
    obtain rfl := Store.flush_ok hop
    exact rfl
  | error e store =>
    obtain rfl := Store.flush_error hop
    exact ⟨h, nofun⟩

theorem ends_seekTo (h : writer.HasSamples d samples) (offset : Nat) :
    Run.Ends (fun _ left => left.HasSamples d samples ∧ left.store.cursor = offset)
      (Survived d samples) (onStore (Store.seekTo offset) writer) := by
  refine ends_onStore ?_
  cases hop : Store.seekTo offset writer.store with
  | ok _ store =>
    obtain rfl := Store.seekTo_ok hop
    exact ⟨h.withStore (h.store.movedTo ..), rfl⟩
  | error e store =>
    obtain rfl := Store.seekTo_error hop
    exact ⟨h, nofun⟩

theorem ends_length (h : writer.HasSamples d samples) :
    Run.Ends (fun n left => n = headerSize + samples.length ∧ left = writer) (Survived d samples)
      (onStore Store.length writer) := by
  refine ends_onStore ?_
  cases hop : Store.length writer.store with
  | ok n store =>
    obtain ⟨hlength, rfl⟩ := Store.length_ok hop
    rw [h.store.size, h.store.truthful, Nat.add_zero] at hlength
    exact ⟨hlength, rfl⟩
  | error e store =>
    obtain ⟨cursor, rfl⟩ := Store.length_error hop
    exact ⟨h.withStore (h.store.movedTo ..), nofun⟩

/-- Writing a header from the start keeps `samples`, whether it is written as a whole or in part. -/
theorem ends_writeHeaderBytes (h : writer.HasSamples d samples) (hstart : writer.store.cursor = 0)
    (declared : Int64) :
    Run.Ends (fun _ left => left.HasSamples d samples) (Survived d samples)
      (onStore (Store.writeAll (headerBytes d declared).toByteArray) writer) := by
  refine ends_onStore ?_
  have hwrote := Store.writeAll_wrote (headerBytes d declared).toByteArray
    (show writer.store.cursor ≤ writer.store.bytes.size by rw [hstart]; exact Nat.zero_le _)
  rw [List.toList_data_toByteArray] at hwrote
  cases hop : Store.writeAll (headerBytes d declared).toByteArray writer.store with
  | ok _ store =>
    rw [hop] at hwrote
    cases hwrote with
    | whole took =>
      have hwhole : headerBytes d declared = headerBytes d declared ++ [] :=
        (List.append_nil _).symm
      exact h.withStore (h.store.of_took_header hstart hwhole took)
  | error e store =>
    rw [hop] at hwrote
    cases hwrote with
    | torn data_eq rest_ne took refusing =>
      exact ⟨h.withStore (h.store.of_took_header hstart data_eq took), nofun⟩

/-! ## Headers -/

theorem ends_compose (h : writer.HasSamples d samples) :
    Run.Ends (fun header left => (∃ declared, header = headerBytes d declared) ∧
      left.HasSamples d samples) (Survived d samples) (compose writer) := by
  rw [compose, HeaderDraft.compose, h.describe]
  by_cases hlength : writer.stream.length < 2 ^ 63
  · simp only [if_pos hlength]
    exact ⟨⟨_, rfl⟩, h.describe, h.start, h.length_le, h.store⟩
  · simp only [if_neg hlength]
    exact ⟨⟨h.describe, h.start, h.length_le, h.store⟩, by simp⟩

theorem ends_locate (h : writer.HasSamples d samples) :
    Run.Ends (fun _ left => left.HasSamples d samples) (Survived d samples)
      (locate headerSize writer) := by
  have hknown : writer.stream.start.getD headerSize = headerSize := by
    rw [h.start, Option.getD_some]
  rw [locate, Stream.locate_eq hknown]
  exact ⟨h.describe, rfl, h.length_le, h.store⟩

/-- A header that is written goes over the old one, and the cursor comes back to the end. -/
theorem ends_putHeader (h : writer.HasSamples d samples) (hend : writer.AtEnd samples) :
    Run.Ends (fun _ left => left.HasSamples d samples ∧ left.AtEnd samples) (Survived d samples)
      (putHeader writer) := by
  unfold putHeader
  refine (ends_position h).bind ?_
  rintro resume left ⟨hresume, hleft⟩
  rw [hleft]
  refine (ends_compose h).bind ?_
  rintro header composed ⟨⟨declared, rfl⟩, h⟩
  refine (ends_seekTo h 0).bind ?_
  rintro _ rewound ⟨h, hstart⟩
  -- From here on the header may be torn.
  refine (ends_writeHeaderBytes h hstart declared).bind ?_
  intro _ written h
  rw [length_headerBytes]
  refine (ends_locate h).bind ?_
  intro _ located h
  have hback : max resume headerSize = headerSize + samples.length := by
    rw [hresume, hend]
    omega
  rw [hback]
  exact ends_seekTo h _

/-- No more is counted than the store is long, `storeLength`, wherever the samples were said to end.
-/
theorem HasSamples.measuredAs (h : writer.HasSamples d samples) {storeLength : Nat}
    (hle : storeLength ≤ headerSize + samples.length) :
    (writer.measuredAs storeLength).HasSamples d samples := by
  refine ⟨h.describe, h.start, ?_, h.store⟩
  have hoffset := offset_of_start h.start
  rw [Writer.measuredAs, hoffset]
  cases writer.samplesEnd with
  | none =>
    show storeLength - headerSize ≤ samples.length
    omega
  | some mark =>
    show (if mark < storeLength then mark else storeLength) - headerSize ≤ samples.length
    split <;> omega

/-- Settling goes through as a whole, or stops with `samples` still there. -/
theorem ends_putMeasuredHeader (h : writer.HasSamples d samples) (hend : writer.AtEnd samples) :
    Run.Ends (fun _ left => left.HasSamples d samples ∧ left.AtEnd samples) (Survived d samples)
      (putMeasuredHeader writer) := by
  have hget : (get : WriterM Writer) writer = .ok writer writer := rfl
  unfold putMeasuredHeader
  refine (ends_flush h).bind ?_
  intro _ flushed hflushed
  rw [hflushed]
  refine (ends_length h).bind ?_
  rintro storeLength left ⟨hlength, hleft⟩
  rw [hleft, Run.bind_of_ok hget]
  have hset (length : Nat) :
      Run.Ends (fun _ left => left = { writer with stream := { writer.stream with length } })
        (Survived d samples) (setLength length writer) := rfl
  refine (hset _).bind ?_
  intro _ counted hcounted
  have hcount : counted = writer.measuredAs storeLength := hcounted
  rw [hcount]
  -- Only the counted length has changed, which the invariant bounds by the store.
  have hmeasured := h.measuredAs (Nat.le_of_eq hlength)
  have hstays : (writer.measuredAs storeLength).AtEnd samples := hend
  refine (ends_putHeader hmeasured hstays).bind ?_
  rintro _ written ⟨h, hend⟩
  refine (ends_flush h).mono ?_ fun _ _ hbad => hbad
  rintro _ kept rfl
  exact ⟨h, hend⟩

/-- A header write that fails breaks the writer, which then need not be at the end. -/
theorem ends_breaking {operation : WriterM Unit}
    (h : Run.Ends (fun _ left => left.HasSamples d samples ∧ left.AtEnd samples)
      (Survived d samples) (operation writer)) :
    Run.Ends (fun _ left => left.SamplesInvariant d samples)
      (fun e left => left.SamplesInvariant d samples ∧ e ≠ .broken)
      (breaking operation writer) := by
  rw [breaking]
  cases hop : operation writer with
  | ok _ left =>
    rw [hop] at h
    exact ⟨h.1, fun _ => h.2⟩
  | error e left =>
    rw [hop] at h
    refine ⟨⟨⟨h.1.describe, h.1.start, h.1.length_le, h.1.store⟩, ?_⟩, h.2⟩
    intro hintact
    cases hintact

theorem ends_writeHeader (h : writer.SamplesInvariant d samples) (hintact : writer.broken = false) :
    Run.Ends (fun _ left => left.SamplesInvariant d samples)
      (fun e left => left.SamplesInvariant d samples ∧ e ≠ .broken) (writeHeader writer) := by
  rw [writeHeader_eq_breaking hintact]
  exact ends_breaking (ends_putHeader h.toHasSamples (h.atEnd hintact))

theorem ends_settle (h : writer.SamplesInvariant d samples) (hintact : writer.broken = false) :
    Run.Ends (fun _ left => left.SamplesInvariant d samples)
      (fun e left => left.SamplesInvariant d samples ∧ e ≠ .broken) (settle writer) := by
  rw [settle_eq_breaking hintact]
  exact ends_breaking (ends_putMeasuredHeader h.toHasSamples (h.atEnd hintact))

/-! ## Calls -/

/-- Bytes that are `taken` at the end are behind the others, and the writer goes on behind them. -/
theorem SamplesInvariant.took (h : writer.SamplesInvariant d samples)
    (hintact : writer.broken = false) {taken : Bytes} {store : Store}
    (htook : writer.store.Took taken store) :
    ({ writer with store } : Writer).SamplesInvariant d (samples ++ taken) := by
  have hend := h.atEnd hintact
  have hlength : writer.stream.length ≤ (samples ++ taken).length := by
    have := h.length_le
    rw [List.length_append]
    omega
  refine ⟨⟨h.describe, h.start, hlength, h.store.of_took_samples hend htook⟩, fun _ => ?_⟩
  show store.cursor = _
  rw [htook.cursor, hend, List.length_append, Nat.add_assoc]

/-- Counting up to the cursor does not count more than there is. -/
theorem SamplesInvariant.withSamples {store : Store}
    (h : ({ writer with store } : Writer).SamplesInvariant d samples)
    (hintact : writer.broken = false) : (writer.withSamples store).SamplesInvariant d samples := by
  have hend : store.cursor = headerSize + samples.length := h.atEnd hintact
  have hoffset : writer.region.offset = headerSize := offset_of_start h.start
  have hlength : max writer.stream.length (store.cursor - writer.region.offset) ≤
      samples.length := by
    have hle : writer.stream.length ≤ samples.length := h.length_le
    rw [hoffset, hend]
    omega
  exact ⟨⟨h.describe, h.start, hlength, h.store⟩, fun _ => hend⟩

/-- A write that fails has appended a part of `data`, and one that succeeds all of it. -/
theorem ends_write (h : writer.SamplesInvariant d samples) (hintact : writer.broken = false)
    (data : ByteArray) :
    Run.Ends (fun _ left => left.SamplesInvariant d (samples ++ data.data.toList))
      (fun e left => ∃ part, part <+: data.data.toList ∧ left.SamplesInvariant d (samples ++ part) ∧
        e ≠ .broken) (write data writer) := by
  have hend : writer.store.cursor = writer.store.bytes.size := by
    rw [h.store.size, h.atEnd hintact]
  have hwrote := Store.writeAll_wrote data (Nat.le_of_eq hend)
  -- In each of the three ways, the medium has taken a part of the bytes at the end.
  have hresult := writeResult_write hintact data
  generalize write data writer = result at hresult
  cases hresult with
  | short hwrite =>
    rw [hwrite] at hwrote
    cases hwrote with
    | torn data_eq rest_ne took refusing =>
      exact ⟨_, ⟨_, data_eq.symm⟩, h.took hintact took, nofun⟩
  | lost hwrite hposition =>
    rw [hwrite] at hwrote
    cases hwrote with
    -- The bytes are there, though the write fails.
    | whole took => exact ⟨_, List.prefix_refl _, h.took hintact took, nofun⟩
  | counted hwrite hposition =>
    rw [hwrite] at hwrote
    cases hwrote with
    | whole took =>
      have hcounted := (h.took hintact took).withSamples hintact
      cases writer.eager with
      | false => exact hcounted
      | true =>
        refine (ends_settle hcounted hintact).mono (fun _ _ hgood => hgood) ?_
        rintro e left ⟨hleft, hne⟩
        exact ⟨_, List.prefix_refl _, hleft, hne⟩

theorem ends_endSamples (h : writer.SamplesInvariant d samples) :
    Run.Ends (fun _ left => left.SamplesInvariant d samples)
      (fun e left => left.SamplesInvariant d samples ∧ e ≠ .broken) (endSamples writer) := by
  unfold endSamples
  have hposition : Run.Ends (fun _ left => left = writer)
      (fun e left => left.SamplesInvariant d samples ∧ e ≠ .broken)
      (onStore Store.position writer) := by
    refine ends_onStore ?_
    cases hop : Store.position writer.store with
    | ok here store =>
      obtain ⟨-, rfl⟩ := Store.position_ok hop
      exact rfl
    | error e store =>
      obtain rfl := Store.position_error hop
      exact ⟨h, nofun⟩
  refine hposition.bind ?_
  intro stop left hleft
  rw [hleft]
  exact ⟨⟨h.describe, h.start, h.length_le, h.store⟩, h.atEnd⟩

/-- What the call `c` of a writer with `samples` ends in: its own bytes are appended when it
succeeds, and a part of them when it fails. -/
def Ended (d : Description) (samples : Bytes) (c : Call) :
    EStateM.Result Error Writer Answer → Prop :=
  Run.Ends (fun _ left => left.SamplesInvariant d (samples ++ c.samples))
    (fun e left => ∃ part, part <+: c.samples ∧ (e = .broken → part = []) ∧
      left.SamplesInvariant d (samples ++ part))

/-- A call `c` that does not write samples appends nothing, however it ends. -/
theorem ended_of_nil {c : Call} (hc : c.samples = []) {α : Type} {operation : WriterM α}
    (h : Run.Ends (fun _ left => left.SamplesInvariant d samples)
      (fun e left => left.SamplesInvariant d samples ∧ e ≠ .broken) (operation writer))
    {answer : α → Answer} :
    Ended d samples c ((operation >>= fun x => pure (answer x)) writer) := by
  have hended : Run.Ends (fun _ left => left.SamplesInvariant d (samples ++ c.samples))
      (fun e left => ∃ part, part <+: c.samples ∧ (e = .broken → part = []) ∧
        left.SamplesInvariant d (samples ++ part)) (operation writer) := by
    rw [hc]
    refine h.mono (fun _ left hleft => ?_) fun e left hleft => ?_
    · rwa [List.append_nil]
    · exact ⟨[], List.nil_prefix, fun _ => rfl, by rw [List.append_nil]; exact hleft.1⟩
  exact hended.bind fun _ _ hleft => hleft

/-- The call `c` appends its bytes when it succeeds, and a part of them when it fails. A broken
writer appends nothing. -/
theorem ended_call (h : writer.SamplesInvariant d samples) (c : Call) :
    Ended d samples c (call c writer) := by
  by_cases hrefused : writer.broken = true ∧ c.NeedsIntact
  case pos =>
    rw [call_of_broken hrefused.1 hrefused.2]
    refine ⟨[], List.nil_prefix, fun _ => rfl, ?_⟩
    rw [List.append_nil]
    exact h
  -- What is left either runs on an intact writer or does not ask.
  have hintact (hc : c.NeedsIntact) : writer.broken = false := by
    rw [← Bool.not_eq_true]
    exact fun hbroken => hrefused ⟨hbroken, hc⟩
  cases c with
  | write data =>
    unfold Ended call
    refine Run.Ends.bind ?_ fun _ _ hleft => hleft
    refine (ends_write h (hintact trivial) data).mono (fun _ _ hgood => hgood) ?_
    -- A write that fails part way does not refuse as broken, so its prefix need not be empty.
    rintro e left ⟨part, hpart, hleft, hne⟩
    exact ⟨part, hpart, fun hbroken => absurd hbroken hne, hleft⟩
  | writeHeader => exact ended_of_nil rfl (ends_writeHeader h (hintact trivial))
  | settle => exact ended_of_nil rfl (ends_settle h (hintact trivial))
  | refresh => exact ended_of_nil rfl (ends_settle h (hintact trivial))
  | eager enabled =>
    have heager : Run.Ends (fun _ left => left.SamplesInvariant d samples)
        (fun e left => left.SamplesInvariant d samples ∧ e ≠ .broken) (setEager enabled writer) :=
      ⟨⟨h.describe, h.start, h.length_le, h.store⟩, h.atEnd⟩
    exact ended_of_nil rfl heager
  | endSamples => exact ended_of_nil rfl (ends_endSamples h)

/-! ## Runs -/

/-- An event that does not touch the bytes or the cursor behind the back of the writer: calls, and
faults of a medium that tells its length truthfully. -/
def Event.Honest : Event → Prop
  | .call _ => True
  | .change (.faults faults) => faults.phantom = 0
  | .change _ => False

/-- What `part` is kept of the bytes of a call, as far as its outcome tells. -/
structure Kept (entry : Call × Except Error Answer) (part : Bytes) : Prop where
  /-- The first bytes are kept. -/
  front : part <+: entry.1.samples
  /-- All of them are kept where the call succeeds. -/
  whole : ∀ answer, entry.2 = .ok answer → part = entry.1.samples
  /-- None of them is kept where the call is refused. -/
  refused : entry.2 = .error .broken → part = []

/-- The call `c` keeps a part of its bytes behind those that are there. -/
theorem samplesInvariant_call (h : writer.SamplesInvariant d samples) (c : Call) :
    ∃ part, Kept (c, Run.outcome (call c) writer) part ∧
      (writer.meet (.call c)).SamplesInvariant d (samples ++ part) := by
  have hended := ended_call h c
  rw [meet, Run.outcome, Run.after]
  cases hcall : call c writer with
  | ok answer left =>
    rw [hcall] at hended
    refine ⟨c.samples, ⟨List.prefix_refl _, fun _ _ => rfl, ?_⟩, hended⟩
    intro hrefused
    cases hrefused
  | error e left =>
    rw [hcall] at hended
    obtain ⟨part, hpart, hnone, hleft⟩ := hended
    refine ⟨part, ⟨hpart, ?_, ?_⟩, hleft⟩
    · intro answer hanswer
      cases hanswer
    · intro hbroken
      exact hnone (Except.error.inj hbroken)

/-- Faults come and go without touching the bytes. -/
theorem SamplesInvariant.change (h : writer.SamplesInvariant d samples) {change : Store.Change}
    (honest : Event.Honest (.change change)) :
    (writer.meet (.change change)).SamplesInvariant d samples := by
  cases change with
  | faults faults => exact ⟨⟨h.describe, h.start, h.length_le, h.store.content, honest⟩, h.atEnd⟩
  | _ => exact honest.elim

/-- A run of `events` keeps a part of the bytes of each of its calls, one behind the other. -/
theorem samplesInvariant_follow (h : writer.SamplesInvariant d samples) {events : List Event}
    (honest : ∀ event ∈ events, event.Honest) :
    ∃ parts, List.Forall₂ Kept (writer.outcomes events) parts ∧
      (writer.follow events).SamplesInvariant d (samples ++ parts.flatten) := by
  induction events generalizing writer samples with
  | nil => exact ⟨[], .nil, by rw [List.flatten_nil, List.append_nil]; exact h⟩
  | cons event events ih =>
    have hrest : ∀ event ∈ events, event.Honest := fun event hmem =>
      honest event (List.mem_cons_of_mem _ hmem)
    cases event with
    | call c =>
      obtain ⟨part, hkept, hcall⟩ := samplesInvariant_call h c
      obtain ⟨parts, hparts, hrun⟩ := ih hcall hrest
      refine ⟨part :: parts, .cons hkept hparts, ?_⟩
      rw [List.flatten_cons, ← List.append_assoc]
      exact hrun
    | change change =>
      obtain ⟨parts, hparts, hrun⟩ := ih (h.change (honest _ List.mem_cons_self)) hrest
      exact ⟨parts, hparts, hrun⟩

/-! ## Starting -/

/-- Recording the layout changes nothing but the journal. -/
theorem SamplesInvariant.noteLayout (h : writer.SamplesInvariant d samples) :
    writer.noteLayout.SamplesInvariant d samples := by
  unfold Writer.noteLayout
  cases writer.draft.description with
  | none => exact h
  | some description => exact ⟨⟨h.describe, h.start, h.length_le, h.store⟩, h.atEnd⟩

/-- The first header of `request`, once it has been written. -/
theorem samplesInvariant_of_putHeader {request : StreamRequest} {empty : Store}
    (hrequest : request.check = .ok ()) (hempty : empty.bytes.size = 0)
    (htruthful : empty.faults.phantom = 0)
    (h : putHeader (forStream (empty.movedTo 0 empty.faults.pace) request.stream .empty) =
      .ok () writer) :
    writer.SamplesInvariant request.stream.description [] := by
  obtain ⟨header, stream, store, store', -, hcompose, -, hwrite, hlocate, hback, rfl⟩ :=
    putHeader_eq_ok_iff.1 h
  have hheader : header = headerBytes request.stream.description 0 := by
    have hblank : request.stream.length < 2 ^ 63 := Nat.two_pow_pos 63
    change (HeaderDraft.empty.compose request.stream).1 = .ok header at hcompose
    rw [HeaderDraft.compose, StreamRequest.describe_eq hrequest] at hcompose
    simp only [if_pos hblank] at hcompose
    exact (Except.ok.inj hcompose).symm
  subst hheader
  rw [length_headerBytes, Stream.locate_eq rfl] at hlocate
  cases hlocate
  -- The header stands where nothing was, and the cursor behind it.
  let rewound := (forStream (empty.movedTo 0 empty.faults.pace) request.stream .empty).rewound
  have hfront : rewound.cursor ≤ rewound.bytes.size := Nat.zero_le _
  have hwrote := Store.writeAll_wrote (headerBytes request.stream.description 0).toByteArray hfront
  rw [hwrite, List.toList_data_toByteArray] at hwrote
  cases hwrote with
  | whole took =>
    rw [length_headerBytes] at hback
    obtain rfl := Store.seekTo_ok hback
    have hcontent : store.content = headerBytes request.stream.description 0 ++ [] := by
      have hsplice := took.content
      change store.content = Bytes.splice empty.content 0 _ at hsplice
      have hnil : empty.content = [] := by
        rw [← List.length_eq_zero_iff, Store.length_content, hempty]
      rw [hsplice, hnil, List.append_nil]
      exact Bytes.splice_length [] _
    obtain ⟨pace, hfaults⟩ := took.faults
    have hphantom : store.faults.phantom = 0 := by
      rw [hfaults]
      exact htruthful
    exact ⟨⟨StreamRequest.describe_eq hrequest, rfl, Nat.le_refl 0, ⟨0, hcontent⟩, hphantom⟩,
      fun _ => rfl⟩

/-- A stream that has been started for `request`, whatever fails later, has its header and no
samples. -/
theorem samplesInvariant_of_create {request : StreamRequest} {store started : Store}
    (hcreate : create request store = .ok writer started) :
    request.check = .ok () ∧ writer.SamplesInvariant request.stream.description [] := by
  obtain ⟨stream, claimed, written, hrequested, hclaim, hwrite, rfl, -⟩ :=
    create_eq_ok_iff.1 hcreate
  obtain ⟨hrequest, rfl⟩ := StreamRequest.requested_eq_ok_iff.1 hrequested
  obtain ⟨hempty, htruthful, rfl⟩ := claimEmpty_ok hclaim
  rw [writeHeader_eq_breaking rfl, breaking_eq_ok_iff] at hwrite
  exact ⟨hrequest, (samplesInvariant_of_putHeader hrequest hempty htruthful hwrite).noteLayout⟩

/-- Settling at the end leaves the samples as they are, whether it succeeds or not. -/
theorem SamplesInvariant.close (h : writer.SamplesInvariant d samples) :
    writer.close.2.HasSamples d samples := by
  rw [Writer.close]
  cases hbroken : writer.broken with
  | true => exact h.store
  | false =>
    have hsettle := ends_settle h hbroken
    simp only [Bool.false_eq_true, ↓reduceIte]
    cases hop : settle writer with
    | ok _ left =>
      rw [hop] at hsettle
      exact hsettle.store
    | error e left =>
      rw [hop] at hsettle
      exact hsettle.1.store

end Writer

/-! ## Opening again -/

/-- Whoever opens the bytes of `store` finds the stream of `request`, with samples up to the last
byte, also where a header for the request was being written over the first bytes: `taken` is what
was written of it. -/
def Store.OpensAs (store : Store) (request : StreamRequest) : Prop :=
  ∀ declared taken rest, headerBytes request.stream.description declared = taken ++ rest →
    ∀ reopened : Store, reopened.Readable →
      reopened.content = Bytes.splice store.content 0 taken →
      ∃ reader opened, Reader.ofStore reopened = .ok reader opened ∧
        reader.stream.sampleRate = request.sampleRate ∧
        reader.stream.channels = request.channels ∧
        reader.stream.encoding = request.encoding ∧
        reader.stream.order = request.order.chosen ∧
        reader.region = ⟨headerSize, reopened.bytes.size - headerSize⟩

theorem Store.HasSamples.opensAs {store : Store} {samples : Bytes} {request : StreamRequest}
    (h : store.HasSamples request.stream.description samples) (hrequest : request.check = .ok ()) :
    store.OpensAs request := by
  intro new taken rest hnew reopened hread hcontent
  obtain ⟨old, hbytes⟩ := h.content
  obtain ⟨declared, hsplice⟩ := splice_headerBytes old hnew samples
  rw [hbytes, hsplice] at hcontent
  obtain ⟨reader, pace, hopen, hstream, hregion, -⟩ :=
    Reader.ofStore_of_written hread hrequest hcontent
  refine ⟨reader, _, hopen, ?_, ?_, ?_, ?_, ?_⟩
  · rw [hstream]; rfl
  · rw [hstream]; rfl
  · rw [hstream]; rfl
  · rw [hstream]; rfl
  · rw [hregion, size_of_header hcontent, Nat.add_sub_cancel_left]

namespace Writer

variable {writer : Writer}

/-- Whatever `events` happen to the `writer` of a stream that has been started, and in the end, its
store has a part of the bytes of each call behind the header, one behind the other: all of them
where the call succeeded, and none where it was refused. A writer that is not broken stands behind
the last byte and counts no more than there is, and the store can be opened (`Store.OpensAs`), also
with a torn header. -/
theorem follow_keeps_samples {request : StreamRequest} {store started : Store}
    (hcreate : create request store = .ok writer started) {events : List Event}
    (honest : ∀ event ∈ events, event.Honest) :
    (∃ parts, List.Forall₂ Kept (writer.outcomes events) parts ∧
      (writer.follow events).store.content.drop headerSize = parts.flatten ∧
      (writer.follow events).close.2.content.drop headerSize = parts.flatten) ∧
    (writer.follow events).release = (writer.follow events).close.2 ∧
    ((writer.follow events).broken = false →
      (writer.follow events).store.cursor = (writer.follow events).store.bytes.size) ∧
    headerSize + (writer.follow events).stream.length ≤ (writer.follow events).store.bytes.size ∧
    (writer.follow events).store.OpensAs request ∧
    (writer.follow events).close.2.OpensAs request := by
  obtain ⟨hrequest, hinvariant⟩ := samplesInvariant_of_create hcreate
  obtain ⟨parts, hparts, hafter⟩ := samplesInvariant_follow hinvariant honest
  rw [List.nil_append] at hafter
  have hclose := hafter.close
  refine ⟨⟨parts, hparts, ?_, ?_⟩, rfl, ?_, ?_, hafter.store.opensAs hrequest,
    hclose.opensAs hrequest⟩
  · obtain ⟨declared, hcontent⟩ := hafter.store.content
    rw [hcontent, List.drop_left' (length_headerBytes _ _)]
  · obtain ⟨declared, hcontent⟩ := hclose.content
    rw [hcontent, List.drop_left' (length_headerBytes _ _)]
  · intro hintact
    rw [hafter.store.size]
    exact hafter.atEnd hintact
  · rw [hafter.store.size]
    exact Nat.add_le_add_left hafter.length_le _

/-- Two writes and a header are cut short by a medium that runs full. What was taken of the samples
is there, and the torn header does not keep anybody from opening them. -/
theorem follow_keeps_samples_of_full_medium :
    ∃ writer started broken, create (.mono .pcm16 44100) { bytes := .empty } = .ok writer started ∧
      broken = writer.follow [.call (.write ⟨#[1, 2, 3]⟩), .change (.faults { budget := some 1 }),
        .call (.write ⟨#[4, 5]⟩), .change (.faults { budget := some 58 }), .call .settle,
        .call (.write ⟨#[6]⟩)] ∧
      broken.broken = true ∧ broken.store.content.drop headerSize = [1, 2, 3, 4] ∧
      broken.store.OpensAs (.mono .pcm16 44100) ∧
      broken.close.2.content.drop headerSize = [1, 2, 3, 4] := by
  let request : StreamRequest := .mono .pcm16 44100
  let events : List Event := [.call (.write ⟨#[1, 2, 3]⟩), .change (.faults { budget := some 1 }),
    .call (.write ⟨#[4, 5]⟩), .change (.faults { budget := some 58 }), .call .settle,
    .call (.write ⟨#[6]⟩)]
  have honest : ∀ event ∈ events, event.Honest := by
    simp [events, Event.Honest]
  have hfacts : (match create request { bytes := .empty } with
      | .ok writer _ => decide ((writer.follow events).broken = true ∧
        (writer.follow events).store.content.drop headerSize = [1, 2, 3, 4])
      | .error _ _ => false) = true := by decide +kernel
  cases hcreate : create request { bytes := .empty } with
  | error e store =>
    rw [hcreate] at hfacts
    cases hfacts
  | ok writer started =>
    rw [hcreate] at hfacts
    obtain ⟨hbroken, hcontent⟩ := of_decide_eq_true hfacts
    obtain ⟨⟨parts, -, hparts, hclose⟩, -, -, -, hopens, -⟩ := follow_keeps_samples hcreate honest
    rw [← hparts, hcontent] at hclose
    exact ⟨writer, started, _, rfl, rfl, hbroken, hcontent, hopens, hclose⟩

end Writer

end Caf
