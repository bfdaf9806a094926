import Caf.Proofs.Container.Digesting

/-!
# What a digest is the digest of

The digest of a reader is that of the bytes which stand in its region now. Where the cursor is does
not matter, nor what has been read or sought before, nor what has been appended behind the region.
A region that is not there as a whole has no digest: it is a fault in the layout, which shows where
the bytes end, or where the region starts if they end in front of it.

## Main results

* `Reader.medium_follow`: whatever happens while a reader is open, the medium is the same;
* `Reader.digest_of_there`, `Reader.digest_of_cut`: the digest of a region that is there, and of one
  that is not;
* `Reader.digest_covers_region`: the digest is that of the region.
-/

namespace Caf.Reader

variable {store opened current : Store} {reader : Reader}

/-! ## The medium -/

/-- Whatever the `event` is, it happens on the medium that is there. -/
theorem medium_meet (reader : Reader) (store : Store) (event : Event) :
    (reader.meet store event).medium = store.medium := by
  cases event with
  | call c =>
    have hstill : (reader.meet store (.call c)).still = store.still := keeps_call reader c store
    exact congrArg (·.medium) hstill
  | change change => cases change <;> rfl

/-- Whatever `events` happen while a reader is open, the medium is the same. -/
theorem medium_follow (reader : Reader) (store : Store) (events : List Event) :
    (reader.follow store events).medium = store.medium := by
  induction events generalizing store with
  | nil => rfl
  | cons event events ih =>
    exact (ih (reader.meet store event)).trans (medium_meet reader store event)

/-! ## Digests of what is there, and of what is not -/

section Sought

variable (hseek : current.faults.seek = false) (hbad : current.faults.bad = none)
  (hoffset : reader.region.offset ≤ current.medium.reach)
  (hcursor : current.cursor ≤ current.medium.reach)
include hseek hbad hoffset hcursor

/-- The digest reads the `samples` that are there of the region, and the cursor goes back. -/
theorem digest_of_readable {samples : ByteArray}
    (hsamples : Store.slice current.bytes reader.region.offset reader.region.length = samples) :
    ∃ pace, reader.digest current =
      (if samples.size ≠ reader.region.length then do
        let offset ← checked (addWithin 64 reader.region.offset samples.size)
        throw (.malformedAt .regionCutShort offset)
      else return Blake3.digest samples : CafM String) (current.movedTo current.cursor pace) := by
  have hentered : (current.movedTo reader.region.offset current.faults.pace).faults.bad = none :=
    hbad
  obtain ⟨pace, hfill⟩ := Store.fill_eq hentered reader.region.length
  rw [Store.movedTo_bytes, Store.movedTo_cursor, Store.movedTo_movedTo, hsamples] at hfill
  exact ⟨pace, digest_of_filled hseek hoffset hcursor hfill⟩

/-- A region that is there as a whole has the digest of its `samples`, and the cursor is where it
was. -/
theorem digest_of_there (hthere : reader.region.length = 0 ∨
      reader.region.offset + reader.region.length ≤ current.bytes.size) :
    ∃ samples pace, samples.size = reader.region.length ∧
      samples.data.toList = (current.content.drop reader.region.offset).take reader.region.length ∧
      reader.digest current =
        .ok (Blake3.digest samples) (current.movedTo current.cursor pace) := by
  obtain ⟨pace, hdigest⟩ := digest_of_readable hseek hbad hoffset hcursor rfl
  have hsize : (Store.slice current.bytes reader.region.offset reader.region.length).size =
      reader.region.length := by
    rw [Store.size_slice]
    omega
  rw [if_neg (not_not_intro hsize)] at hdigest
  exact ⟨_, pace, hsize, Store.toList_slice .., hdigest⟩

/-- A region that is not there as a whole has no digest. That shows where its bytes end. -/
theorem digest_of_cut (hsome : 0 < reader.region.length)
    (hcut : current.bytes.size < reader.region.offset + reader.region.length)
    (hstop : reader.region.offset + reader.region.length < 2 ^ 64) :
    ∃ pace, reader.digest current =
      .error (.malformedAt .regionCutShort (max current.bytes.size reader.region.offset))
        (current.movedTo current.cursor pace) := by
  generalize hsamples :
    Store.slice current.bytes reader.region.offset reader.region.length = samples
  have hsize := Store.size_slice current.bytes reader.region.offset reader.region.length
  rw [hsamples] at hsize
  -- No byte is counted where the store ends in front of the region.
  have hend : reader.region.offset + samples.size =
      max current.bytes.size reader.region.offset := by
    omega
  have hsum : addWithin 64 reader.region.offset samples.size =
      .ok (max current.bytes.size reader.region.offset) := by
    rw [← hend]
    exact if_pos (show reader.region.offset + samples.size < 2 ^ 64 by omega)
  obtain ⟨pace, hdigest⟩ := digest_of_readable hseek hbad hoffset hcursor hsamples
  have hshort : samples.size ≠ reader.region.length := by
    omega
  rw [if_pos hshort, hsum, Run.bind_of_ok (checked_ok _ _)] at hdigest
  exact ⟨pace, hdigest⟩

end Sought

/-! ## Any time later -/

/-- Whatever has been done with `reader` and whatever has happened to its store, wherever the cursor
is by now: as long as seeking works and the bytes can be read, a region that is there as a whole has
the digest (`data_hash`) of the bytes that stand in it now, and of no others. A region that is not
there as a whole has no digest. It is a fault in the layout, which shows where its bytes end. The
cursor stays where it was in either case. -/
theorem digest_covers_region (hreach : store.medium.reach < 2 ^ 64)
    (hopen : ofStore store = .ok reader opened) {events : List Event}
    (hcurrent : reader.follow opened events = current) (hseek : current.faults.seek = false)
    (hbad : current.faults.bad = none) (hcursor : current.cursor ≤ current.medium.reach) :
    (reader.region.length = 0 ∨
        reader.region.offset + reader.region.length ≤ current.bytes.size →
      ∃ samples pace, samples.size = reader.region.length ∧
        samples.data.toList =
          (current.content.drop reader.region.offset).take reader.region.length ∧
        reader.digest current =
          .ok (Blake3.digest samples) (current.movedTo current.cursor pace)) ∧
    (0 < reader.region.length →
      current.bytes.size < reader.region.offset + reader.region.length →
      ∃ pace, reader.digest current =
        .error (.malformedAt .regionCutShort (max current.bytes.size reader.region.offset))
          (current.movedTo current.cursor pace)) ∧
    ∀ digest left, reader.digest current = .ok digest left → reader.region.length = 0 ∨
      reader.region.offset + reader.region.length ≤ current.bytes.size := by
  -- The region is at offsets that the medium has had since it was opened.
  obtain ⟨hsound, -, hlength⟩ := sound_of_ofStore hopen
  have hopened : opened.still = store.still := keeps_ofStore.of_ok hopen
  have hmedium : current.medium = store.medium := by
    rw [← hcurrent, medium_follow]
    exact congrArg (·.medium) hopened
  rw [← hsound.stop] at hlength
  have hoffset : reader.region.offset ≤ current.medium.reach := by
    rw [hmedium]
    omega
  have hcut : 0 < reader.region.length →
      current.bytes.size < reader.region.offset + reader.region.length →
      ∃ pace, reader.digest current =
        .error (.malformedAt .regionCutShort (max current.bytes.size reader.region.offset))
          (current.movedTo current.cursor pace) :=
    fun hsome hshort => digest_of_cut hseek hbad hoffset hcursor hsome hshort (by omega)
  refine ⟨digest_of_there hseek hbad hoffset hcursor, hcut, ?_⟩
  intro digest left hdigest
  -- With a part of the region gone, the digest would have failed.
  refine Decidable.byContradiction fun hgone => ?_
  obtain ⟨pace, herror⟩ := hcut (by omega) (by omega)
  rw [hdigest] at herror
  cases herror

/-- Seven bytes of samples are hashed while the cursor is at the second frame, on a slow medium to
which two bytes have been appended. Once the store is cut off in front of the samples, there is no
digest, and that shows where they would start. -/
theorem digest_covers_region_of_appended :
    ∃ (store opened : Store) (reader : Reader), ofStore store = .ok reader opened ∧
      reader.region = ⟨68, 7⟩ ∧ ∃ current cut left left',
        reader.follow opened [.call (.read 3), .call (.goToFrame 1),
          .change (.append ⟨#[8, 9]⟩), .change (.faults { pace := [.interrupted, .short 0] })] =
            current ∧
        current.cursor = 70 ∧ current.bytes.size = 77 ∧ current.change (.truncate 60) = cut ∧
        reader.digest current = .ok (Blake3.digest ⟨#[1, 2, 3, 4, 5, 6, 7]⟩) left ∧
        reader.digest cut = .error (.malformedAt .regionCutShort 68) left' := by
  let description : Description := ⟨⟨0x40E5888000000000⟩, Description.lpcm, 0, 2, 1, 1, 16⟩
  let store : Store := { bytes := ⟨(headerBytes description 8 ++ [1, 2, 3, 4, 5, 6, 7]).toArray⟩ }
  let events : List Event := [.call (.read 3), .call (.goToFrame 1),
    .change (.append ⟨#[8, 9]⟩), .change (.faults { pace := [.interrupted, .short 0] })]
  obtain ⟨reader, opened, hopen, hregion, hcursor, hsize, hseek, hbad, hmedium, hsamples⟩ :
      ∃ reader opened, ofStore store = .ok reader opened ∧ reader.region = ⟨68, 7⟩ ∧
        (reader.follow opened events).cursor = 70 ∧
        (reader.follow opened events).bytes.size = 77 ∧
        (reader.follow opened events).faults.seek = false ∧
        (reader.follow opened events).faults.bad = none ∧
        (reader.follow opened events).medium = .memory ∧
        ((reader.follow opened events).content.drop 68).take 7 = [1, 2, 3, 4, 5, 6, 7] := by
    decide +kernel
  let current := reader.follow opened events
  let cut := current.change (.truncate 60)
  have hthere : current.cursor ≤ current.medium.reach := by
    rw [hcursor, hmedium]
    decide
  have hfollow : reader.follow opened (events ++ [.change (.truncate 60)]) = cut :=
    List.foldl_append
  have hcut : cut.bytes.size = 60 := by
    show (current.bytes.extract 0 (min 60 current.bytes.size)).size = 60
    rw [hsize, ByteArray.size_extract, hsize]
    rfl
  obtain ⟨hwhole, -, -⟩ := digest_covers_region (by decide) hopen rfl hseek hbad hthere
  obtain ⟨-, hshort, -⟩ := digest_covers_region (by decide) hopen hfollow hseek hbad hthere
  rw [hregion, hsize] at hwhole
  rw [hregion, hcut] at hshort
  obtain ⟨samples, pace, -, hbytes, hdigest⟩ := hwhole (.inr (by decide))
  obtain ⟨pace', herror⟩ := hshort (by decide) (by decide)
  have hseven : samples = ⟨#[1, 2, 3, 4, 5, 6, 7]⟩ :=
    ByteArray.ext (Array.toList_inj.1 (hbytes.trans hsamples))
  rw [hseven] at hdigest
  exact ⟨store, opened, reader, hopen, hregion, current, cut, _, _, rfl, hcursor, hsize, rfl,
    hdigest, herror⟩

end Caf.Reader
