import Caf.Proofs.Container.Confining
import Caf.Proofs.Store.BadArea

/-!
# Where a digest leaves the cursor

For its digest, a region is read from its start, and then the cursor goes back to where it was. It
does so too when bytes of the region have gone since the container was opened, and where seeking
fails the cursor has not been moved yet. But a read that fails ends the digest at once: the cursor
stays where reading has failed, at the first byte that cannot be read. What is read next is then
not what would have been read without asking for the digest.

## Main definitions

* `Reader.DigestStumbles`: the digest of a reader comes to bytes that cannot be read.

## Main results

* `Reader.cursor_digest_iff`: when the cursor is where it was;
* `Reader.cursor_digest_of_bad_sector`: a digest that moves the cursor.
-/

namespace Caf.Reader

variable {store opened current : Store} {reader : Reader}

/-- Reading the region for its digest comes to `bad` bytes that cannot be read. -/
structure DigestStumbles (reader : Reader) (current : Store) (bad : BadArea) : Prop where
  /-- The region is sought. -/
  seek : current.faults.seek = false
  /-- These are the bytes that cannot be read. -/
  area : current.faults.bad = some bad
  /-- They are reached before the region or the bytes end. -/
  stumbles : current.Stumbles bad reader.region.offset reader.region.length

/-! ## The steps of a digest -/

/-- Where seeking fails, nothing happens. -/
theorem after_digest_of_seek (hseek : current.faults.seek = true) :
    Run.after reader.digest current = current := by
  have hposition : Store.position current = .error .seekFailed current := if_pos hseek
  exact Run.after_of_error (Run.bind_of_error (Store.explaining_of_error hposition))

section Sought

variable (hseek : current.faults.seek = false)
  (hoffset : reader.region.offset ≤ current.medium.reach)
include hseek hoffset

/-- A read that fails with `e` ends the digest where it has stopped. -/
theorem digest_of_stopped {e : DeviceError} {left : Store}
    (hfill : Store.fill reader.region.length
      (current.movedTo reader.region.offset current.faults.pace) = .error e left) :
    reader.digest current = .error (.device e) left := by
  rw [digest, Run.bind_of_ok (Store.run_of_ok (Store.position_eq hseek)),
    Run.bind_of_ok (Store.run_of_ok (Store.seekTo_eq hseek hoffset))]
  exact Run.bind_of_error (Store.explaining_of_error hfill)

section Filled

variable (hcursor : current.cursor ≤ current.medium.reach) {samples : ByteArray} {stop : Nat}
  {pace : List Turn}
  (hfill : Store.fill reader.region.length
    (current.movedTo reader.region.offset current.faults.pace) =
      .ok samples (current.movedTo stop pace))
include hcursor hfill

/-- After a read that does not fail the cursor goes back, and the samples are judged. -/
theorem digest_of_filled :
    reader.digest current =
      (if samples.size ≠ reader.region.length then do
        let offset ← checked (addWithin 64 reader.region.offset samples.size)
        throw (.malformedAt .regionCutShort offset)
      else return Blake3.digest samples : CafM String) (current.movedTo current.cursor pace) := by
  have hback : Store.seekTo current.cursor (current.movedTo stop pace) =
      .ok () (current.movedTo current.cursor pace) := Store.seekTo_eq hseek hcursor
  rw [digest, Run.bind_of_ok (Store.run_of_ok (Store.position_eq hseek)),
    Run.bind_of_ok (Store.run_of_ok (Store.seekTo_eq hseek hoffset)),
    Run.bind_of_ok (Store.run_of_ok hfill), Run.bind_of_ok (Store.run_of_ok hback)]
  split <;> rfl

/-- The cursor is where it was, however many bytes were there. -/
theorem cursor_digest_of_filled : (Run.after reader.digest current).cursor = current.cursor := by
  -- The judgement on the samples touches nothing.
  have hjudge : Run.Keeps Store.cursor
      (if samples.size ≠ reader.region.length then do
        let offset ← checked (addWithin 64 reader.region.offset samples.size)
        throw (.malformedAt .regionCutShort offset)
      else return Blake3.digest samples : CafM String) :=
    .ite (.bind (keeps_checked _ _) fun _ => .throw _ _) (.pure _ _)
  rw [Run.after, digest_of_filled hseek hoffset hcursor hfill]
  exact hjudge (current.movedTo current.cursor pace)

end Filled

end Sought

/-! ## The cursor -/

/-- Either `reader.digest` stops at bytes that cannot be read, or the cursor is where it was. -/
theorem digest_cases (hopen : ofStore store = .ok reader opened)
    (hmedium : current.medium = store.medium) (hconfines : reader.Confines current) :
    (∃ bad, reader.DigestStumbles current bad ∧
      ∃ left, reader.digest current = .error (.device bad.error) left ∧
        left.cursor = max reader.region.offset bad.start) ∨
    (∀ bad, ¬ reader.DigestStumbles current bad) ∧
      (Run.after reader.digest current).cursor = current.cursor := by
  -- The region and the cursor are at offsets that the medium has had since it was opened.
  obtain ⟨hsound, -, hlength⟩ := sound_of_ofStore hopen
  rw [← hsound.stop, ← hmedium] at hlength
  have hoffset : reader.region.offset ≤ current.medium.reach :=
    Nat.le_trans (Nat.le_add_right ..) hlength
  have hcursor : current.cursor ≤ current.medium.reach := Nat.le_trans hconfines.2 hlength
  cases hseek : current.faults.seek with
  | true =>
    right
    refine ⟨?_, by rw [after_digest_of_seek hseek]⟩
    rintro bad ⟨hsought, -, -⟩
    rw [hseek] at hsought
    cases hsought
  | false =>
    cases harea : current.faults.bad with
    | none =>
      right
      obtain ⟨pace, hfill⟩ := Store.fill_eq
        (show (current.movedTo reader.region.offset current.faults.pace).faults.bad = none from
          harea) reader.region.length
      refine ⟨?_, cursor_digest_of_filled hseek hoffset hcursor hfill⟩
      rintro bad ⟨-, hsome, -⟩
      rw [harea] at hsome
      cases hsome
    | some bad =>
      have hfilled := Store.fill_filled
        (show (current.movedTo reader.region.offset current.faults.pace).faults.bad = some bad from
          harea) reader.region.length
      generalize hfill : Store.fill reader.region.length
        (current.movedTo reader.region.offset current.faults.pace) = result at hfilled
      cases hfilled with
      | whole pace clear =>
        right
        refine ⟨?_, cursor_digest_of_filled hseek hoffset hcursor hfill⟩
        rintro other ⟨-, hother, hstumbles⟩
        rw [harea] at hother
        cases hother
        exact clear hstumbles
      | stopped pace stumbles =>
        exact .inl ⟨bad, ⟨hseek, harea, stumbles⟩, _, digest_of_stopped hseek hoffset hfill, rfl⟩

/-- Asking an opened `reader` for its digest (`data_hash`) while the cursor is in its region leaves
the cursor where it is, whatever has become of the bytes and whatever fails, with one exception:
reading the region comes to `bad` bytes that cannot be read. Then the digest fails with the error of
the device and the cursor stays at the first of these bytes, or at the start of the region if that
is behind it. -/
theorem cursor_digest_iff (hopen : ofStore store = .ok reader opened)
    (hmedium : current.medium = store.medium) (hconfines : reader.Confines current) :
    ((Run.after reader.digest current).cursor = current.cursor ↔
      ∀ bad, reader.DigestStumbles current bad →
        max reader.region.offset bad.start = current.cursor) ∧
    ∀ bad, reader.DigestStumbles current bad →
      ∃ left, reader.digest current = .error (.device bad.error) left ∧
        left.cursor = max reader.region.offset bad.start := by
  rcases digest_cases hopen hmedium hconfines with
    ⟨bad, hstumbles, left, hdigest, hleft⟩ | ⟨hnone, hcursor⟩
  · -- There is one such area only.
    have hunique : ∀ other, reader.DigestStumbles current other → other = bad := by
      intro other hother
      exact Option.some.inj (hother.area.symm.trans hstumbles.area)
    constructor
    · rw [Run.after_of_error hdigest, hleft]
      constructor
      · intro hsame other hother
        rw [hunique other hother, hsame]
      · intro hall
        exact hall bad hstumbles
    · intro other hother
      rw [hunique other hother]
      exact ⟨left, hdigest, hleft⟩
  · exact ⟨⟨fun _ bad hbad => absurd hbad (hnone bad), fun _ => hcursor⟩,
      fun bad hbad => absurd hbad (hnone bad)⟩

/-- Bytes that cannot be read do no harm where the file has been cut off in front of them: the
digest finds the region too short, and the cursor is where it was. -/
theorem cursor_digest_iff_of_cut :
    ∃ (store opened : Store) (reader : Reader), ofStore store = .ok reader opened ∧
      reader.region = ⟨68, 7⟩ ∧
      ∃ current, current = reader.follow opened [.call (.goToFrame 1), .change (.truncate 71),
        .change (.faults { bad := some ⟨72, .badSector⟩ })] ∧
      current.cursor = 70 ∧ (Run.after reader.digest current).cursor = 70 := by
  let description : Description := ⟨⟨0x40E5888000000000⟩, Description.lpcm, 0, 2, 1, 1, 16⟩
  let store : Store := { bytes := ⟨(headerBytes description 8 ++ [1, 2, 3, 4, 5, 6, 7]).toArray⟩ }
  let events : List Event := [.call (.goToFrame 1), .change (.truncate 71),
    .change (.faults { bad := some ⟨72, .badSector⟩ })]
  obtain ⟨reader, opened, hopen, hregion, hcursor, hsize, hbad, hmedium⟩ :
      ∃ reader opened, ofStore store = .ok reader opened ∧ reader.region = ⟨68, 7⟩ ∧
        (reader.follow opened events).cursor = 70 ∧
        (reader.follow opened events).bytes.size = 71 ∧
        (reader.follow opened events).faults.bad = some ⟨72, .badSector⟩ ∧
        (reader.follow opened events).medium = store.medium := by decide +kernel
  have hconfines : reader.Confines (reader.follow opened events) := by
    rw [Confines, hregion, hcursor]
    decide
  refine ⟨store, opened, reader, hopen, hregion, _, rfl, hcursor, ?_⟩
  rw [(cursor_digest_iff hopen hmedium hconfines).1.2 ?_, hcursor]
  -- What is left of the file ends in front of the bad bytes.
  rintro bad ⟨-, harea, -, -, hcomes⟩
  rw [hbad] at harea
  cases harea
  rw [hsize, hregion] at hcomes
  exact absurd hcomes (by decide)

/-- A digest that moves the cursor: the reader is at its second frame when bytes behind it cannot be
read. The digest fails, and once they can be read again, the frame that is read next is the third.
Without the digest it would have been the second. -/
theorem cursor_digest_of_bad_sector :
    ∃ (store opened : Store) (reader : Reader), ofStore store = .ok reader opened ∧
      ∃ before after, before = reader.follow opened [.call (.goToFrame 1),
        .change (.faults { bad := some ⟨72, .badSector⟩ })] ∧ reader.Confines before ∧
      reader.digest before = .error (.device .badSector) after ∧
      before.cursor = 70 ∧ after.cursor = 72 ∧
      (Run.outcome (reader.read 2) (after.change (.faults .none))).toOption = some ⟨#[5, 6]⟩ ∧
      (Run.outcome (reader.read 2) (before.change (.faults .none))).toOption = some ⟨#[3, 4]⟩ := by
  let description : Description := ⟨⟨0x40E5888000000000⟩, Description.lpcm, 0, 2, 1, 1, 16⟩
  let store : Store := { bytes := ⟨(headerBytes description 8 ++ [1, 2, 3, 4, 5, 6, 7]).toArray⟩ }
  let events : List Event := [.call (.goToFrame 1),
    .change (.faults { bad := some ⟨72, .badSector⟩ })]
  obtain ⟨reader, opened, hopen, hregion, hmedium, hbad, hbefore, hafter, hnext, hwithout⟩ :
      ∃ reader opened, ofStore store = .ok reader opened ∧ reader.region = ⟨68, 7⟩ ∧
        (reader.follow opened events).medium = store.medium ∧
        (reader.follow opened events).faults.bad = some ⟨72, .badSector⟩ ∧
        (reader.follow opened events).cursor = 70 ∧
        (Run.after reader.digest (reader.follow opened events)).cursor = 72 ∧
        (Run.outcome (reader.read 2)
          ((Run.after reader.digest (reader.follow opened events)).change
            (.faults .none))).toOption = some ⟨#[5, 6]⟩ ∧
        (Run.outcome (reader.read 2)
          ((reader.follow opened events).change (.faults .none))).toOption = some ⟨#[3, 4]⟩ := by
    decide +kernel
  have hconfines : reader.Confines (reader.follow opened events) := by
    rw [Confines, hregion, hbefore]
    decide
  -- The cursor has moved, so that the digest has come to the bad bytes.
  rcases digest_cases hopen hmedium hconfines with
    ⟨bad, hstumbles, left, hdigest, -⟩ | ⟨-, hcursor⟩
  · obtain rfl := Option.some.inj (hbad.symm.trans hstumbles.area)
    rw [Run.after_of_error hdigest] at hafter hnext
    exact ⟨store, opened, reader, hopen, _, left, rfl, hconfines, hdigest, hbefore, hafter, hnext,
      hwithout⟩
  · rw [hafter, hbefore] at hcursor
    exact absurd hcursor (by decide)

end Caf.Reader
