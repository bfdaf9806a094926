import Caf.Proofs.Container.Appending

/-!
# Where samples end

Once the end of the samples has been said (`Writer.endSamples`, or `mark_data_end`), what is written
behind it is something else. Every header that is settled declares the samples up to there, and the
writer then reports as many. A write by a writer that is not eager is the only call that does not
look at the end: it reports all bytes, and they go into the header if that is written before it is
settled.

## Main definitions

* `Writer.Settles`: a call settles a header;
* `Writer.Shows`: what a writer reports and what its header declares.

## Main results

* `Writer.shows_call_of_settles`, `Writer.shows_run_of_quiet`: what settling does, and what keeps
  it;
* `Writer.shows_run_of_provisional`: what a header declares that is written before it is settled;
* `Writer.shows_mark`: no more is shown than there was at the end, unless a write waits to be
  settled, and then all that is there.
-/

namespace Caf.Writer

variable {writer writer' : Writer} {store origin : Store} {d : Description} {ledger : Ledger}
  {capacity : Nat} {p : Nat → Prop}

/-- A call settles a header. An eager writer does so when it writes. -/
def Settles (writer : Writer) : Call → Prop
  | .settle | .refresh => True
  | .write _ => writer.eager = true
  | .writeHeader | .eager _ | .endSamples => False

/-- A call does not write samples. -/
def Call.Quiet : Call → Prop
  | .write _ => False
  | _ => True

/-- A call leaves the length of the stream as it is counted, whatever it does to the header. -/
def Call.Provisional : Call → Prop
  | .writeHeader | .eager _ => True
  | _ => False

/-- The number of sample bytes that `writer` reports and the number that its header declares have
the property `p`. -/
structure Shows (writer : Writer) (d : Description) (p : Nat → Prop) : Prop where
  /-- The stream counts so many. -/
  counted : p writer.stream.length
  /-- The region of the samples is so long. -/
  region : p writer.region.length
  /-- The summary says the same. -/
  summary : p writer.summary.length
  /-- So many are declared, by a header that is read back. -/
  declared : ∃ n rest, p n ∧ writer.store.content = headerBytes d (Int64.ofNat n) ++ rest ∧
    HeaderReads writer.store.content d (Int64.ofNat n) rest

/-- Regions and summaries take their length from the stream. -/
theorem Shows.of_counted {n : Nat} {rest : Bytes} (hcounted : p writer.stream.length) (hn : p n)
    (hcontent : writer.store.content = headerBytes d (Int64.ofNat n) ++ rest) :
    writer.Shows d p :=
  ⟨hcounted, hcounted, hcounted, n, rest, hn, hcontent, hcontent ▸ headerReads_append ..⟩

theorem Shows.mono {q : Nat → Prop} (h : writer.Shows d p) (hpq : ∀ n, p n → q n) :
    writer.Shows d q := by
  obtain ⟨n, rest, hn, hcontent, -⟩ := h.declared
  exact .of_counted (hpq _ h.counted) (hpq n hn) hcontent

/-- No more is shown than `ledger` has. -/
theorem Holds.shows (h : writer.Holds d origin ledger) :
    writer.Shows d (· ≤ ledger.samples.length) := by
  obtain ⟨n, hn, hcontent⟩ := h.content
  exact .of_counted h.length_le hn hcontent

/-! ## Calls -/

/-- A call that has nothing to answer leaves what its operation leaves. -/
theorem eq_of_done {operation : WriterM Unit} {answer : Answer} {left : Writer}
    (hcall : (operation >>= fun _ => pure Answer.done) writer = .ok answer writer')
    (hop : operation writer = .ok () left) : writer' = left := by
  rw [Run.bind_of_ok hop] at hcall
  cases hcall
  rfl

/-- To `settle` shows what `ledger` declares. -/
theorem shows_settle (h : writer.Holds d origin ledger) (haccepting : origin.Accepting capacity)
    (hroom : headerSize + ledger.samples.length ≤ capacity) (hp : p ledger.declared) :
    ∃ left, settle writer = .ok () left ∧ left.Shows d p := by
  obtain ⟨left, hsettle, -, hlength, hcontent⟩ := settle_of_holds h haccepting hroom
  exact ⟨left, hsettle, .of_counted (hlength ▸ hp) hp hcontent⟩

section Call

variable {c : Call} {answer : Answer} (h : writer.Holds d origin ledger)
  (haccepting : origin.Accepting capacity) (hcall : call c writer = .ok answer writer')
include h haccepting hcall

/-- A call `c` that settles shows what the ledger then declares. -/
theorem shows_call_of_settles (hroom : headerSize + (ledger.call c).2.samples.length ≤ capacity)
    (hc : writer.Settles c) (hp : p (ledger.call c).2.declared) : writer'.Shows d p := by
  cases c with
  | settle =>
    obtain ⟨left, hsettle, hshows⟩ := shows_settle h haccepting hroom hp
    exact eq_of_done hcall hsettle ▸ hshows
  | refresh =>
    obtain ⟨left, hsettle, hshows⟩ := shows_settle h haccepting hroom hp
    exact eq_of_done hcall hsettle ▸ hshows
  | write samples =>
    have heager : writer.eager = true := hc
    -- The samples are counted first, wherever they were said to end, and then measured.
    obtain ⟨taken, hwrite, hholds, -⟩ := write_eq_of_holds h haccepting samples hroom
    rw [heager] at hwrite
    obtain ⟨left, hsettle, hshows⟩ := shows_settle hholds haccepting hroom hp
    exact eq_of_done hcall (hwrite.trans hsettle) ▸ hshows
  | writeHeader => exact hc.elim
  | eager enabled => exact hc.elim
  | endSamples => exact hc.elim

/-- A provisional call leaves what is counted. A header that it writes (`emit_provisional`) declares
just that, and if it writes none the old one is left. -/
theorem shows_call_of_provisional (hroom : headerSize + ledger.samples.length ≤ capacity)
    (hc : c.Provisional) (hcounted : p writer.stream.length) :
    p writer'.stream.length ∧ (c = .writeHeader ∨ writer.Shows d p → writer'.Shows d p) := by
  cases c with
  | writeHeader =>
    obtain ⟨left, hwrite, -, hlength, hcontent⟩ := writeHeader_of_holds h haccepting hroom
    obtain rfl := eq_of_done hcall hwrite
    rw [← hlength] at hcounted
    exact ⟨hcounted, fun _ => .of_counted hcounted hcounted (hlength ▸ hcontent)⟩
  | eager enabled =>
    have heager : setEager enabled writer = .ok () { writer with eager := enabled } := rfl
    obtain rfl := eq_of_done hcall heager
    refine ⟨hcounted, ?_⟩
    rintro (hheader | hshows)
    · cases hheader
    · exact ⟨hshows.counted, hshows.region, hshows.summary, hshows.declared⟩
  | write samples => exact hc.elim
  | settle => exact hc.elim
  | refresh => exact hc.elim
  | endSamples => exact hc.elim

/-- A call `c` that writes no samples shows nothing new, apart from what `ledger` declares. -/
theorem shows_call_of_quiet (hroom : headerSize + ledger.samples.length ≤ capacity) (hc : c.Quiet)
    (hshows : writer.Shows d p) (hp : p ledger.declared) : writer'.Shows d p := by
  have hprovisional (hc : c.Provisional) : writer'.Shows d p :=
    (shows_call_of_provisional h haccepting hcall hroom hc hshows.counted).2 (.inr hshows)
  cases c with
  | write samples => exact hc.elim
  | settle => exact shows_call_of_settles h haccepting hcall hroom trivial hp
  | refresh => exact shows_call_of_settles h haccepting hcall hroom trivial hp
  | writeHeader => exact hprovisional trivial
  | eager enabled => exact hprovisional trivial
  | endSamples =>
    have hposition := Store.position_eq (haccepting.of_alike h.alike).seek
    have hend : endSamples writer = .ok writer.store.cursor
        { writer with samplesEnd := some writer.store.cursor } :=
      Run.bind_of_ok (onStore_of_ok hposition)
    replace hcall := (Run.bind_of_ok hend).symm.trans hcall
    cases hcall
    exact ⟨hshows.counted, hshows.region, hshows.summary, hshows.declared⟩

/-- A call `c` leaves the ledger that belongs to it. -/
theorem holds_of_call (hroom : headerSize + (ledger.call c).2.samples.length ≤ capacity) :
    writer'.Holds d origin (ledger.call c).2 := by
  obtain ⟨left, hleft, hholds⟩ := holds_call h haccepting c hroom
  rw [hleft] at hcall
  cases hcall
  exact hholds

end Call

/-- A write that waits to be settled counts all that is there, wherever the samples end: the stream
counts up to the cursor, and `samplesEnd` is not looked at. -/
theorem length_of_waiting {samples : ByteArray} {answer : Answer} (h : writer.Holds d origin ledger)
    (haccepting : origin.Accepting capacity)
    (hcall : call (.write samples) writer = .ok answer writer') (heager : writer.eager = false)
    (hroom : headerSize + (ledger.append samples.data.toList).samples.length ≤ capacity) :
    writer'.stream.length = (ledger.append samples.data.toList).samples.length := by
  obtain ⟨store, hwrite, hholds, -⟩ := write_eq_of_holds h haccepting samples hroom
  rw [heager] at hwrite
  obtain rfl := eq_of_done hcall hwrite
  have hle := hholds.length_le
  have hcursor : store.cursor = _ := hholds.cursor
  have hcounted : (writer.withSamples store).stream.length =
    max writer.stream.length (store.cursor - writer.region.offset) := rfl
  rw [h.offset, hcursor, Nat.add_sub_cancel_left] at hcounted
  omega

/-! ## Runs -/

/-- A run is a call `c` and the run that follows. -/
theorem run_cons_eq_ok_iff {c : Call} {calls : List Call} {answers : List Answer} :
    run (c :: calls) writer = .ok answers writer' ↔
      ∃ answer left rest, call c writer = .ok answer left ∧ run calls left = .ok rest writer' ∧
        answers = answer :: rest := by
  rw [run, Run.bind_eq_ok_iff]
  constructor
  · rintro ⟨answer, left, hcall, hrest⟩
    obtain ⟨rest, last, hrun, hpure⟩ := Run.bind_eq_ok_iff.1 hrest
    obtain ⟨rfl, rfl⟩ := Run.pure_eq_ok_iff.1 hpure
    exact ⟨answer, left, rest, hcall, hrun, rfl⟩
  · rintro ⟨answer, left, rest, hcall, hrun, rfl⟩
    exact ⟨answer, left, hcall, Run.bind_of_ok hrun⟩

/-- A run in two parts: `calls` and the `rest`. -/
theorem run_append_ok {calls rest : List Call} {answers : List Answer}
    (h : run (calls ++ rest) writer = .ok answers writer') :
    ∃ first middle second, run calls writer = .ok first middle ∧
      run rest middle = .ok second writer' := by
  induction calls generalizing writer answers with
  | nil => exact ⟨[], writer, answers, rfl, h⟩
  | cons c calls ih =>
    obtain ⟨answer, left, tail, hcall, htail, -⟩ := run_cons_eq_ok_iff.1 h
    obtain ⟨first, middle, second, hfirst, hsecond⟩ := ih htail
    exact ⟨_, middle, second, run_cons_eq_ok_iff.2 ⟨answer, left, first, hcall, hfirst, rfl⟩,
      hsecond⟩

section Run

variable {calls : List Call} {answers : List Answer}

/-- A run of `calls` leaves the ledger that belongs to it. -/
theorem holds_of_run (h : writer.Holds d origin ledger) (haccepting : origin.Accepting capacity)
    (hrun : run calls writer = .ok answers writer')
    (hroom : headerSize + (ledger.run calls).2.samples.length ≤ capacity) :
    writer'.Holds d origin (ledger.run calls).2 := by
  obtain ⟨left, hleft, hholds⟩ := holds_run h haccepting calls hroom
  rw [hleft] at hrun
  cases hrun
  exact hholds

/-- As long as nothing is written and the end is not said again by `calls`, what is shown stays so.
-/
theorem shows_run_of_quiet (h : writer.Holds d origin ledger)
    (haccepting : origin.Accepting capacity) (hrun : run calls writer = .ok answers writer')
    (hroom : headerSize + ledger.samples.length ≤ capacity)
    (hcalls : ∀ c ∈ calls, c.Quiet ∧ c ≠ .endSamples) (hshows : writer.Shows d p)
    (hp : p ledger.declared) : writer'.Shows d p := by
  induction calls generalizing writer answers with
  | nil =>
    obtain ⟨-, rfl⟩ := Run.pure_eq_ok_iff.1 hrun
    exact hshows
  | cons c calls ih =>
    obtain ⟨answer, left, rest, hcall, hrest, -⟩ := run_cons_eq_ok_iff.1 hrun
    obtain ⟨hquiet, hmark⟩ := hcalls c List.mem_cons_self
    -- The ledger changes only where something is written or the end is said.
    have hsame : (ledger.call c).2 = ledger := by
      cases c <;> first | rfl | exact hquiet.elim | exact absurd rfl hmark
    have hleft := holds_of_call h haccepting hcall (by rwa [hsame])
    rw [hsame] at hleft
    exact ih hleft hrest (fun c hc => hcalls c (List.mem_cons_of_mem _ hc))
      (shows_call_of_quiet h haccepting hcall hroom hquiet hshows hp)

/-- As long as all `calls` are provisional, the length of the stream is left as it is counted, and
each header that is written declares that length. -/
theorem shows_run_of_provisional (h : writer.Holds d origin ledger)
    (haccepting : origin.Accepting capacity) (hrun : run calls writer = .ok answers writer')
    (hroom : headerSize + ledger.samples.length ≤ capacity) (hcalls : ∀ c ∈ calls, c.Provisional)
    (hcounted : p writer.stream.length) :
    writer'.Holds d origin ledger ∧ p writer'.stream.length ∧
      (.writeHeader ∈ calls ∨ writer.Shows d p → writer'.Shows d p) := by
  induction calls generalizing writer answers with
  | nil =>
    obtain ⟨-, rfl⟩ := Run.pure_eq_ok_iff.1 hrun
    exact ⟨h, hcounted, fun hshows => hshows.resolve_left List.not_mem_nil⟩
  | cons c calls ih =>
    obtain ⟨answer, left, rest, hcall, hrest, -⟩ := run_cons_eq_ok_iff.1 hrun
    have hc := hcalls c List.mem_cons_self
    -- No provisional call takes samples or moves the mark, so the ledger stays as it is.
    have hsame : (ledger.call c).2 = ledger := by
      cases c <;> first | rfl | exact hc.elim
    have hleft := holds_of_call h haccepting hcall (by rwa [hsame])
    rw [hsame] at hleft
    obtain ⟨hnext, hshows⟩ := shows_call_of_provisional h haccepting hcall hroom hc hcounted
    obtain ⟨hholds, hlast, hshows'⟩ :=
      ih hleft hrest (fun c hc => hcalls c (List.mem_cons_of_mem _ hc)) hnext
    refine ⟨hholds, hlast, ?_⟩
    rintro (hheader | hbefore)
    · rcases List.mem_cons.1 hheader with rfl | hlater
      · exact hshows' (.inr (hshows (.inl rfl)))
      · exact hshows' (.inl hlater)
    · exact hshows' (.inr (hshows (.inr hbefore)))

end Run

/-! ## Streams that have been started -/

/-- On a `store` without faults, a stream that has been started or continued holds the samples that
were there, and no end of them has been said. -/
theorem holds_of_started (hstarted : writer.StartedOn store) (hread : store.Readable)
    (haccepting : store.Accepting capacity)
    (hroom : max headerSize store.bytes.size ≤ capacity) :
    ∃ d ledger, writer.Holds d store ledger ∧
      headerSize + ledger.samples.length = max headerSize store.bytes.size := by
  have hcreated {request : StreamRequest} {store' : Store}
      (h : create request store = .ok writer store') :
      ∃ d ledger, writer.Holds d store ledger ∧
        headerSize + ledger.samples.length = max headerSize store.bytes.size := by
    obtain ⟨stream, claimed, started, hrequested, hclaim, -⟩ := create_eq_ok_iff.1 h
    obtain ⟨hrequest, -⟩ := StreamRequest.requested_eq_ok_iff.1 hrequested
    obtain ⟨hempty, -, -⟩ := claimEmpty_ok hclaim
    obtain ⟨other, hcreate, hholds⟩ := create_holds hrequest hempty hread.cursor haccepting
      (Nat.le_trans (Nat.le_max_left ..) hroom)
    rw [hcreate] at h
    cases h
    exact ⟨_, _, hholds, by rw [hempty]; rfl⟩
  obtain ⟨request, store', h | h⟩ := hstarted
  · exact hcreated h
  rcases append_eq_ok_iff.1 h with ⟨measured, hlength, hcreate⟩ |
    ⟨n, measured, header, scan, stop, found, hlength, hheader, hoffset, -, -, -, -⟩
  · obtain ⟨-, rfl⟩ := Store.length_ok hlength
    exact hcreated hcreate
  -- The header that was read is the one that opening the store reads.
  · obtain ⟨-, rfl⟩ := Store.length_ok hlength
    have hopen : Reader.ofStore measured =
        .ok ⟨header, header.stream.region, scan.journal⟩ scan.store :=
      Reader.ofStore_eq_ok_iff.2 ⟨header, scan, hheader, rfl, rfl⟩
    have hend := (Reader.region_of_ofStore hread hopen).2.2
    have hlong : headerSize ≤ measured.bytes.size := by
      rw [← hend]
      exact hoffset ▸ Nat.le_add_right ..
    have hsize : measured.bytes.size ≤ capacity := Nat.le_trans (Nat.le_max_right ..) hroom
    have hwritable : measured.Open := hread.opens haccepting (Nat.le_trans hlong hsize) hsize
    obtain ⟨other, happend, hholds⟩ := append_holds request hread hwritable hopen hoffset
    rw [happend] at h
    cases h
    refine ⟨_, _, hholds, ?_⟩
    rw [Nat.max_eq_right hlong]
    show headerSize + (measured.content.drop headerSize).length = _
    rw [List.length_drop, Store.length_content, Nat.add_sub_cancel' hlong]

/-! ## The end of the samples -/

section Marked

variable {calls : List Call} {answers : List Answer}
  (h : writer.Holds d origin ledger.endSamples) (haccepting : origin.Accepting capacity)
  (hcalls : ∀ c ∈ calls, c ≠ .endSamples) (hrun : run calls writer = .ok answers writer')
  (hroom : headerSize + (ledger.endSamples.run calls).2.samples.length ≤ capacity)
include h haccepting hcalls hrun hroom

/-- Where nothing was written behind the end, nothing behind it is shown. -/
theorem shows_of_unwritten (hend : (∀ c ∈ calls, c.Quiet) ∨
      writer'.store.bytes.size ≤ headerSize + ledger.samples.length) :
    writer'.Shows d (· ≤ ledger.samples.length) := by
  rcases hend with hquiet | hsize
  · have hroom' : headerSize + ledger.endSamples.samples.length ≤ capacity :=
      Nat.le_trans (Nat.add_le_add_left (ledger.endSamples.length_le_run calls) _) hroom
    exact shows_run_of_quiet h haccepting hrun hroom' (fun c hc => ⟨hquiet c hc, hcalls c hc⟩)
      h.shows (Nat.le_refl _)
  -- What is shown is there, and all that is there stands in front of the end.
  · have hholds := holds_of_run h haccepting hrun hroom
    rw [hholds.size] at hsize
    exact hholds.shows.mono fun n hn => Nat.le_trans hn (Nat.le_of_add_le_add_left hsize)

/-- Since a call `c` settled a header, what is in front of the end is shown, as long as nothing is
written. -/
theorem shows_of_settled {early late : List Call} {c : Call} (hsplit : calls = early ++ c :: late)
    (hc : (Run.after (run early) writer).Settles c) (hlate : ∀ c ∈ late, c.Quiet) :
    writer'.Shows d (· = ledger.samples.length) := by
  subst hsplit
  obtain ⟨first, settling, second, hearly, hrest⟩ := run_append_ok hrun
  obtain ⟨answer, settled, rest, hcall, hquiet, -⟩ := run_cons_eq_ok_iff.1 hrest
  rw [Run.after_of_ok hearly] at hc
  rw [Ledger.run_append] at hroom
  -- What is there at each of the three points is there in the end.
  have hroom₂ : headerSize +
      ((ledger.endSamples.run early).2.call c).2.samples.length ≤ capacity :=
    Nat.le_trans (Nat.add_le_add_left (Ledger.length_le_run _ late) _) hroom
  have hroom₁ : headerSize + (ledger.endSamples.run early).2.samples.length ≤ capacity :=
    Nat.le_trans (Nat.add_le_add_left (Ledger.length_le_run _ (c :: late)) _) hroom
  have hsettling := holds_of_run h haccepting hearly hroom₁
  have hstop : ((ledger.endSamples.run early).2.call c).2.stop = some ledger.samples.length :=
    (Ledger.stop_call (hcalls c (by simp))).trans
      (Ledger.stop_run _ fun c hc => hcalls c (by simp [hc]))
  have hdeclared : ((ledger.endSamples.run early).2.call c).2.declared =
      ledger.samples.length := by
    rw [Ledger.declared, hstop, Option.getD_some]
  exact shows_run_of_quiet (holds_of_call hsettling haccepting hcall hroom₂) haccepting hquiet
    hroom₂ (fun c hc => ⟨hlate c hc, hcalls c (by simp [hc])⟩)
    (shows_call_of_settles hsettling haccepting hcall hroom₂ hc hdeclared) hdeclared

/-- Since a write of `samples` that waits to be settled, all that is there is reported, and headers
that are written declare it. -/
theorem shows_of_waiting {early late : List Call} {samples : ByteArray}
    (hsplit : calls = early ++ .write samples :: late)
    (heager : (Run.after (run early) writer).eager = false) (hlate : ∀ c ∈ late, c.Provisional) :
    writer'.stream.length = writer'.store.bytes.size - headerSize ∧
      (.writeHeader ∈ late → writer'.Shows d (· = writer'.store.bytes.size - headerSize)) := by
  subst hsplit
  obtain ⟨first, writing, second, hearly, hrest⟩ := run_append_ok hrun
  obtain ⟨answer, waiting, rest, hcall, hprovisional, -⟩ := run_cons_eq_ok_iff.1 hrest
  rw [Run.after_of_ok hearly] at heager
  rw [Ledger.run_append] at hroom
  have hroom₂ : headerSize +
      ((ledger.endSamples.run early).2.append samples.data.toList).samples.length ≤ capacity :=
    Nat.le_trans (Nat.add_le_add_left (Ledger.length_le_run _ late) _) hroom
  have hroom₁ : headerSize + (ledger.endSamples.run early).2.samples.length ≤ capacity :=
    Nat.le_trans (Nat.add_le_add_left (Ledger.length_le_run _ (.write samples :: late)) _) hroom
  have hwriting := holds_of_run h haccepting hearly hroom₁
  have hwaiting := length_of_waiting hwriting haccepting hcall heager hroom₂
  obtain ⟨hholds, hlength, hshows⟩ :=
    shows_run_of_provisional (p := fun n => n = _) (holds_of_call hwriting haccepting hcall hroom₂)
      haccepting hprovisional hroom₂ hlate hwaiting
  -- The provisional calls have added nothing, so that what was counted is all that is there.
  have hall : writer'.store.bytes.size - headerSize =
      ((ledger.endSamples.run early).2.append samples.data.toList).samples.length := by
    rw [hholds.size, Nat.add_sub_cancel_left]
    rfl
  rw [hall]
  exact ⟨hlength, fun hheader => hshows (.inl hheader)⟩

/-- Closing declares what is in front of the end, and leaves what is behind it where it is. -/
theorem close_of_marked : writer'.close.1 = .ok () ∧
    writer'.close.2.content = headerBytes d (Int64.ofNat ledger.samples.length) ++
      writer'.store.content.drop headerSize := by
  have hholds := holds_of_run h haccepting hrun hroom
  obtain ⟨closed, hclose, -, hcontent⟩ := close_of_holds hholds haccepting hroom
  obtain ⟨n, -, hbefore⟩ := hholds.content
  rw [hclose, hbefore, ← ledger.declared_endSamples_run hcalls]
  exact ⟨rfl, hcontent.trans (by rw [List.drop_left' (length_headerBytes ..)])⟩

end Marked

/-- Once the end of the samples has been said (`mark_data_end`), what is shown does not go beyond
`stop`, unless more has been written and not been settled since. A header that is settled
(`finalize`) declares the samples up to the end, and as many are reported then; so it is when the
stream is closed. A write that waits to be settled reports all that is there, and a header that is
written before that (`emit_provisional`) declares it. -/
theorem shows_mark (hstarted : writer.StartedOn store) (hread : store.Readable)
    (before after : List Call) (hafter : ∀ c ∈ after, c ≠ .endSamples)
    (haccepting : store.Accepting
      (max headerSize store.bytes.size + ((before ++ after).flatMap Call.samples).length)) :
    ∃ d answers unmarked stop marked answers' final, run before writer = .ok answers unmarked ∧
      call .endSamples unmarked = .ok (.offset stop) marked ∧ headerSize ≤ stop ∧
      run after marked = .ok answers' final ∧
      ((∀ c ∈ after, c.Quiet) ∨ final.store.bytes.size ≤ stop →
        final.Shows d (· ≤ stop - headerSize)) ∧
      (∀ early c late, after = early ++ c :: late → (Run.after (run early) marked).Settles c →
        (∀ c ∈ late, c.Quiet) → final.Shows d (· = stop - headerSize)) ∧
      (∀ early samples late, after = early ++ .write samples :: late →
        (Run.after (run early) marked).eager = false → (∀ c ∈ late, c.Provisional) →
        final.stream.length = final.store.bytes.size - headerSize ∧
          (.writeHeader ∈ late → final.Shows d (· = final.store.bytes.size - headerSize))) ∧
      final.close.1 = .ok () ∧ final.release = final.close.2 ∧
      final.close.2.content = headerBytes d (Int64.ofNat (stop - headerSize)) ++
        final.store.content.drop headerSize ∧
      HeaderReads final.close.2.content d (Int64.ofNat (stop - headerSize))
        (final.store.content.drop headerSize) := by
  obtain ⟨d, ledger, hholds, hlength⟩ :=
    holds_of_started hstarted hread haccepting (Nat.le_add_right ..)
  -- The end is where the samples of the first run end.
  have hroom : headerSize + ((ledger.run before).2.endSamples.run after).2.samples.length ≤
      max headerSize store.bytes.size + ((before ++ after).flatMap Call.samples).length := by
    rw [Ledger.samples_run, Ledger.endSamples, Ledger.samples_run, List.append_assoc,
      ← List.flatMap_append, List.length_append]
    omega
  have hroom₁ : headerSize + (ledger.run before).2.endSamples.samples.length ≤
      max headerSize store.bytes.size + ((before ++ after).flatMap Call.samples).length :=
    Nat.le_trans (Nat.add_le_add_left (Ledger.length_le_run _ after) _) hroom
  obtain ⟨unmarked, hrun, hunmarked⟩ := holds_run hholds haccepting before hroom₁
  obtain ⟨marked, hmark, hmarked⟩ := holds_call hunmarked haccepting .endSamples hroom₁
  obtain ⟨final, hrun', -⟩ := holds_run hmarked haccepting after hroom
  obtain ⟨hclose, hcontent⟩ := close_of_marked hmarked haccepting hafter hrun' hroom
  refine ⟨d, _, unmarked, _, marked, _, final, hrun, hmark, Nat.le_add_right .., hrun', ?_, ?_, ?_,
    hclose, rfl, ?_⟩
  · rw [Nat.add_sub_cancel_left]
    exact shows_of_unwritten hmarked haccepting hafter hrun' hroom
  · intro early c late hsplit
    rw [Nat.add_sub_cancel_left]
    exact shows_of_settled hmarked haccepting hafter hrun' hroom hsplit
  · intro early samples late hsplit
    exact shows_of_waiting hmarked haccepting hafter hrun' hroom hsplit
  · rw [Nat.add_sub_cancel_left]
    exact ⟨hcontent, hcontent ▸ headerReads_append ..⟩

/-- A byte is written behind the end, and the header that is settled then leaves it out. -/
theorem shows_mark_settled :
    ∃ writer unmarked marked final d, create (.mono .pcm16 44100) { bytes := .empty } =
        .ok writer writer.store ∧
      run [.write ⟨#[1, 2]⟩] writer = .ok [.done] unmarked ∧
      call .endSamples unmarked = .ok (.offset 70) marked ∧
      run [.write ⟨#[3]⟩, .settle, .writeHeader] marked = .ok [.done, .done, .done] final ∧
      final.Shows d (· = 2) ∧ final.close.1 = .ok () ∧
      HeaderReads final.close.2.content d 2 (final.store.content.drop headerSize) := by
  have haccepting : Store.Accepting { bytes := .empty } 71 := .of_memory _ (by decide)
  have hread : Store.Readable { bytes := .empty } := ⟨rfl, rfl, rfl, Nat.zero_le _, Nat.zero_le _⟩
  have hrequest : (StreamRequest.mono .pcm16 44100).check = .ok () := rfl
  obtain ⟨writer, hcreate, hholds⟩ := create_holds hrequest rfl (Nat.zero_le _) haccepting
    (by decide)
  obtain ⟨d, answers, unmarked, stop, marked, answers', final, hrun, hmark, -, hrun', -, hsettled,
    -, hclose, -, -, hheader⟩ := shows_mark ⟨_, _, .inl hcreate⟩ hread [.write ⟨#[1, 2]⟩]
      [.write ⟨#[3]⟩, .settle, .writeHeader] (by simp) haccepting
  -- The ledger knows the answers.
  obtain ⟨_, hledger, hholds₁⟩ := holds_run hholds haccepting [.write ⟨#[1, 2]⟩] (by decide)
  rw [hrun] at hledger
  cases hledger
  obtain ⟨_, hledger, hholds₂⟩ := holds_call hholds₁ haccepting .endSamples (by decide)
  rw [hmark] at hledger
  cases hledger
  obtain ⟨_, hledger, -⟩ := holds_run hholds₂ haccepting
    [.write ⟨#[3]⟩, .settle, .writeHeader] (by decide)
  rw [hrun'] at hledger
  cases hledger
  have hshows := hsettled [.write ⟨#[3]⟩] .settle [.writeHeader] rfl trivial (by simp [Call.Quiet])
  exact ⟨writer, unmarked, marked, final, d, hcreate, hrun, hmark, hrun', hshows, hclose, hheader⟩

/-- A byte behind the end is reported and declared where the header is written before it is
settled. -/
theorem overrun_of_write :
    ∃ writer final, create (.mono .pcm16 44100) { bytes := .empty } = .ok writer writer.store ∧
      run [.write ⟨#[1, 2]⟩, .endSamples, .write ⟨#[3]⟩, .writeHeader] writer =
        .ok [.done, .offset 70, .done, .done] final ∧
      final.stream.length = 3 ∧
      final.store.content =
        headerBytes (StreamRequest.mono .pcm16 44100).stream.description 3 ++ [1, 2, 3] ∧
      ¬ final.Shows (StreamRequest.mono .pcm16 44100).stream.description (· ≤ 70 - headerSize) := by
  let calls : List Call := [.write ⟨#[1, 2]⟩, .endSamples, .write ⟨#[3]⟩, .writeHeader]
  have haccepting : Store.Accepting { bytes := .empty } 71 := .of_memory _ (by decide)
  have hrequest : (StreamRequest.mono .pcm16 44100).check = .ok () := rfl
  obtain ⟨writer, hcreate, hholds⟩ := create_holds hrequest rfl (Nat.zero_le _) haccepting
    (by decide)
  obtain ⟨final, hrun, -⟩ := holds_run hholds haccepting calls (by decide)
  -- The header is computed in one closed check, the run itself comes from the ledger.
  have hfacts : (match create (.mono .pcm16 44100) { bytes := .empty } with
      | .ok writer _ =>
        match run calls writer with
        | .ok _ final => decide (final.stream.length = 3 ∧ final.store.content =
          headerBytes (StreamRequest.mono .pcm16 44100).stream.description 3 ++ [1, 2, 3])
        | .error _ _ => false
      | .error _ _ => false) = true := by decide +kernel
  rw [hcreate] at hfacts
  simp only [hrun] at hfacts
  obtain ⟨hlength, hcontent⟩ := of_decide_eq_true hfacts
  refine ⟨writer, final, hcreate, hrun, hlength, hcontent, ?_⟩
  intro hshows
  have hle := hshows.counted
  rw [hlength] at hle
  exact absurd hle (by decide)

end Caf.Writer
