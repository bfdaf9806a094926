import Caf.Proofs.Container.Confining
import Caf.Proofs.Container.Listing
import Caf.Proofs.Run.Beside
import Caf.Proofs.Store.BadArea

/-!
# Headers on a damaged medium

Some bytes of a medium cannot be read. Whoever opens or lists the container on it learns what is
there on a sound medium, or that the device has failed. Nothing that the bad bytes hide is taken for
a fault in the layout, for an unknown encoding or for the end of the chunks. Bytes behind the start
of the samples are not read when a container is opened, so that damage there does not show at all.

## Main definitions

* `Store.damaged`: the store on a medium with bad bytes, and with a pace of its own;
* `BadArea.damage`: the damage that bad bytes do to a store.

## Main results

* `Store.discloses_record`: a record that is read, or cannot be read;
* `Store.steps_disclosing`, `Scan.steps_disclosing`: what is done with the store, and each step of
  reading a header;
* `Header.beside_read`, `ChunkList.beside_read`: reading a header, and listing the chunks;
* `Reader.ofStore_discloses_damage`: what is known of a container on a damaged medium.
-/

namespace Caf

variable {store : Store} {bad : BadArea}

/-- The store on a medium whose bytes in `bad` cannot be read, with `pace` for the transfers to
come. -/
def Store.damaged (store : Store) (bad : BadArea) (pace : List Turn) : Store :=
  { store with faults := { store.faults with bad := some bad, pace } }

namespace BadArea

/-- The damage that `bad` bytes do to a store. The medium may split its transfers differently. -/
def damage {ε : Type} (bad : BadArea) (cause : ε) : Run.Damage ε Store where
  Twin sound damaged := sound.faults.bad = none ∧ ∃ pace, damaged = sound.damaged bad pace
  cause := cause

/-- The cursor is behind the first byte that cannot be read. -/
def Past (bad : BadArea) (store : Store) : Prop :=
  bad.start < store.cursor

end BadArea

/-! ## Operations on the store -/

namespace Store

open Run (Beside Discloses)

section Medium

variable {cause : DeviceError} {past : Store → Prop} {store' : Store}

/-- Asking for the cursor does not come to what cannot be read. -/
theorem beside_position (htwin : (bad.damage cause).Twin store store') :
    Beside (bad.damage cause) past (position store) (position store') := by
  obtain ⟨hsound, pace, rfl⟩ := htwin
  have hseek : (store.damaged bad pace).faults.seek = store.faults.seek := rfl
  rw [position, position, hseek]
  split
  · exact .error ⟨hsound, pace, rfl⟩
  · exact .ok ⟨hsound, pace, rfl⟩

/-- Neither does seeking. -/
theorem beside_seekTo (offset : Nat) (htwin : (bad.damage cause).Twin store store') :
    Beside (bad.damage cause) past (seekTo offset store) (seekTo offset store') := by
  obtain ⟨hsound, pace, rfl⟩ := htwin
  have hseek : (store.damaged bad pace).faults.seek = store.faults.seek := rfl
  have hmedium : (store.damaged bad pace).medium = store.medium := rfl
  rw [seekTo, seekTo, hseek, hmedium]
  split
  · exact .error ⟨hsound, pace, rfl⟩
  split
  · exact .error ⟨hsound, pace, rfl⟩
  · exact .ok ⟨hsound, pace, rfl⟩

/-- Neither does looking for the end. -/
theorem beside_seekEnd (htwin : (bad.damage cause).Twin store store') :
    Beside (bad.damage cause) past (seekEnd store) (seekEnd store') := by
  have hbind (store : Store) : seekEnd store =
      (seekTo (store.bytes.size + store.faults.phantom) >>= fun _ =>
        pure (store.bytes.size + store.faults.phantom)) store := by
    show _ = EStateM.bind _ _ _
    simp only [seekEnd, EStateM.bind]
    cases seekTo (store.bytes.size + store.faults.phantom) store <;> rfl
  -- The damage does not change where the medium claims to end.
  have hstop : store'.bytes.size + store'.faults.phantom =
      store.bytes.size + store.faults.phantom := by
    obtain ⟨-, pace, rfl⟩ := htwin
    rfl
  rw [hbind, hbind, hstop]
  exact .bind_of_never (beside_seekTo _ htwin) fun _ t t' _ htwin => .ok htwin

/-- Measuring does not come to what cannot be read. -/
theorem beside_length (htwin : (bad.damage cause).Twin store store') :
    Beside (bad.damage cause) past (length store) (length store') := by
  refine .bind_of_never (beside_position htwin) fun here t t' _ htwin => ?_
  refine .bind_of_never (beside_seekEnd htwin) fun stop t t' _ htwin => ?_
  split
  · exact .bind_of_never (beside_seekTo here htwin) fun _ t t' _ htwin => .ok htwin
  · exact .ok htwin

theorem discloses_position (store : Store) :
    Discloses (bad.damage cause) bad.Past position store := by
  refine ⟨fun _ => beside_position, ?_⟩
  intro offset left hposition hpast
  rwa [(position_ok hposition).2]

theorem discloses_seekBy (distance : Nat) (store : Store) :
    Discloses (bad.damage cause) bad.Past (seekBy distance) store := by
  constructor
  · rintro _ ⟨hsound, pace, rfl⟩
    exact beside_seekTo (store.cursor + distance) ⟨hsound, pace, rfl⟩
  · intro _ left hseek hpast
    rw [BadArea.Past, (seekBy_ok hseek).2]
    exact Nat.lt_add_right distance hpast

/-- A read of `want` bytes has what there is of them, or stops at those that cannot be read. -/
theorem discloses_readExact (want : Nat) (store : Store) :
    Discloses (bad.damage bad.error) bad.Past (readExact want) store := by
  constructor
  · rintro _ ⟨hsound, pace, rfl⟩
    obtain ⟨spent, hfill⟩ := fill_eq hsound want
    have hdamaged : (store.damaged bad pace).Filled bad want _ := fill_filled rfl want
    rw [readExact, readExact, hfill]
    generalize fill want (store.damaged bad pace) = result at hdamaged
    -- Too few bytes are too few in both runs, unless the damaged one stops in front of their end.
    cases hdamaged with
    | whole pace' clear =>
      have hbytes : (store.damaged bad pace).bytes = store.bytes := rfl
      have hcursor : (store.damaged bad pace).cursor = store.cursor := rfl
      simp only [hbytes, hcursor]
      split
      · exact .error ⟨hsound, pace', rfl⟩
      · exact .ok ⟨hsound, pace', rfl⟩
    | stopped pace' stumbles =>
      refine .disclosed fun part left hok => ?_
      -- Without damage all of them are there, also those from the bad ones on.
      simp only at hok
      split at hok
      case isTrue => cases hok
      case isFalse hall =>
        cases hok
        obtain ⟨-, hinside, -⟩ := stumbles
        exact Nat.lt_of_lt_of_le hinside (Nat.add_le_add_left (Nat.not_lt.1 hall) _)
  · intro part left hread hpast
    rw [BadArea.Past, (readExact_ok hread).2.1]
    exact Nat.lt_add_right want hpast

end Medium

/-- What a failure means does not matter, as long as the `cause` of the damage has its meaning. -/
theorem beside_explaining {α : Type} {past : Store → Prop} {store' : Store} {operation : StoreM α}
    {cause : DeviceError} (meaning : DeviceError → Error)
    (h : Beside (bad.damage cause) past (operation store) (operation store')) :
    Beside (bad.damage (meaning cause)) past (explaining meaning operation store)
      (explaining meaning operation store') := by
  have hrelay (store : Store) : explaining meaning operation store =
      Run.relay meaning (fun x _ => x) id (operation store) := by
    rw [explaining]
    cases operation store <;> rfl
  rw [hrelay, hrelay]
  exact h.relay (fun _ _ htwin => htwin) (fun _ _ _ _ => rfl) rfl fun _ hpast => hpast

theorem discloses_explaining {α : Type} {operation : StoreM α} {cause : DeviceError}
    (meaning : DeviceError → Error)
    (h : Discloses (bad.damage cause) bad.Past operation store) :
    Discloses (bad.damage (meaning cause)) bad.Past (explaining meaning operation) store :=
  ⟨fun store' htwin => beside_explaining meaning (h.beside store' htwin),
    fun x left hok => h.onward x left (explaining_ok hok)⟩

theorem discloses_run {α : Type} {operation : StoreM α} {cause : DeviceError}
    (h : Discloses (bad.damage cause) bad.Past operation store) :
    Discloses (bad.damage (.device cause)) bad.Past (run operation) store :=
  discloses_explaining .device h

end Store

/-! ## Steps of a scan -/

namespace Scan

open Run (Beside Discloses)

/-- The damage that `bad` bytes do to a scan. What has been recorded is the same. -/
def damage (bad : BadArea) : Run.Damage Error Scan where
  Twin sound damaged :=
    (bad.damage (Error.device bad.error)).Twin sound.store damaged.store ∧
      damaged.journal = sound.journal
  cause := .device bad.error

/-- The cursor of `scan` is behind the first byte that cannot be read. -/
def Past (bad : BadArea) (scan : Scan) : Prop :=
  bad.Past scan.store

variable {α : Type} {operation : CafM α} {scan scan' : Scan}

theorem beside_onStore {past : Store → Prop} (htwin : (damage bad).Twin scan scan')
    (h : Beside (bad.damage (.device bad.error)) past (operation scan.store)
      (operation scan'.store)) :
    Beside (damage bad) (fun scan => past scan.store) (onStore operation scan)
      (onStore operation scan') := by
  have hrelay (store : Store) : onStore operation ⟨store, scan.journal⟩ =
      Run.relay id (fun x _ => x) (fun store => ⟨store, scan.journal⟩) (operation store) := by
    rw [onStore]
    cases operation store <;> rfl
  have hdamaged : scan' = ⟨scan'.store, scan.journal⟩ := htwin.2 ▸ rfl
  rw [hdamaged, hrelay scan'.store, hrelay scan.store]
  refine h.relay ?_ (fun _ _ _ _ => rfl) rfl fun _ hpast => hpast
  exact fun _ _ hstores => ⟨hstores, rfl⟩

/-- Asking the store for something without coming to what cannot be read. -/
theorem beside_run {operation : StoreM α} (htwin : (damage bad).Twin scan scan')
    (h : Beside (bad.damage bad.error) (fun _ => False) (operation scan.store)
      (operation scan'.store)) :
    Beside (damage bad) (fun _ => False) (onStore (Store.run operation) scan)
      (onStore (Store.run operation) scan') := by
  -- What is never true of the store is never true of the scan.
  have hrun := beside_onStore htwin (Store.beside_explaining .device h)
  exact hrun

theorem discloses_onStore
    (h : Discloses (bad.damage (.device bad.error)) bad.Past operation scan.store) :
    Discloses (damage bad) (Past bad) (onStore operation) scan :=
  ⟨fun scan' htwin => beside_onStore htwin (h.beside scan'.store htwin.1),
    fun x left hok => h.onward x left.store (onStore_ok hok).1⟩

theorem discloses_note (entry : Journal → Journal) (scan : Scan) :
    Discloses (damage bad) (Past bad) (note entry) scan := by
  constructor
  · intro scan' htwin
    exact .ok ⟨htwin.1, congrArg entry htwin.2⟩
  · rintro _ _ ⟨-, rfl⟩ hpast
    exact hpast

end Scan

/-! ## Reading a header -/

/-- An error `e` other than the end of the bytes stays what it is while a record is read. -/
theorem Error.whileReading_of_ne {e : DeviceError} (he : e ≠ .endOfBytes) (part : HeaderPart)
    (offset : Nat) : Error.whileReading part offset e = .device e := by
  unfold Error.whileReading
  split
  case h_1 => exact absurd rfl he
  case h_2 => rfl

section Records

variable (hbad : bad.error ≠ .endOfBytes)
include hbad

/-- A record of `size` bytes is read as it is, or the device has failed. The end of the bytes is in
the same place with damage and without. -/
theorem Store.discloses_record {α : Type} (part : HeaderPart) (offset size : Nat)
    (read? : Bytes → Option (α × Bytes)) (store : Store) :
    Run.Discloses (bad.damage (.device bad.error)) bad.Past (record part offset size read?)
      store := by
  have hexact : Run.Discloses (bad.damage bad.error) bad.Past (readExact size) store :=
    discloses_readExact size store
  have hread := discloses_explaining (Error.whileReading part offset) hexact
  rw [Error.whileReading_of_ne hbad] at hread
  have hclosed := Run.Discloses.closed (bad.damage (Error.device bad.error)) bad.Past
  refine hclosed.bind hread fun bytes left _ => ?_
  split
  · exact hclosed.pure ..
  · exact hclosed.throw ..

/-- What is done with the store to read a header discloses the damage that it comes to. -/
theorem Store.steps_disclosing : Store.Steps fun ⦃_⦄ operation =>
    Run.Discloses (bad.damage (.device bad.error)) bad.Past operation where
  toClosed := Run.Discloses.closed _ _
  position store := discloses_run (discloses_position store)
  seekBy distance store := discloses_run (discloses_seekBy distance store)
  record := discloses_record hbad

/-- Every step of reading a header comes to what it comes to on a sound medium, or discloses the
damage. -/
theorem Scan.steps_disclosing :
    Scan.Steps
      (fun ⦃_⦄ operation => Run.Discloses (bad.damage (.device bad.error)) bad.Past operation)
      (fun ⦃_⦄ step => Run.Discloses (damage bad) (Past bad) step) where
  toClosed := Run.Discloses.closed _ _
  store := Store.steps_disclosing hbad
  onStore := discloses_onStore
  note _ := discloses_note _

namespace Header

open Run (Beside Discloses)

/-- What is read of a header on a damaged medium is what is read of it on a sound one, or the device
fails. -/
theorem beside_read {scan scan' : Scan} (htwin : (Scan.damage bad).Twin scan scan') :
    Beside (Scan.damage bad) (Scan.Past bad) (read scan) (read scan') := by
  refine .bind_of_never (Scan.beside_run htwin (Store.beside_length htwin.1))
    fun fileLength t t' _ htwin => ?_
  refine .bind_of_never (Scan.beside_run htwin (Store.beside_seekTo 0 htwin.1))
    fun _ t t' _ htwin => ?_
  -- From here on the cursor does not go back.
  exact ((Scan.steps_disclosing hbad).readParts fileLength _).beside t' htwin

end Header

/-! ## Listing -/

namespace ChunkList

open Run (Beside Discloses)

/-- A `walk` discloses the damage that it comes to in any of the chunk headers. -/
theorem discloses_walk (fileLength offset : Nat) (store : Store) :
    Discloses (bad.damage (.device bad.error)) bad.Past
      (walk fileLength offset : CafM (List Entry)) store := by
  have hsteps := Store.steps_disclosing hbad
  -- Every chunk takes the offset nearer to the end of the file, or beyond it.
  induction hleft : fileLength - offset using Nat.strongRecOn generalizing offset store with
  | ind left ih =>
    rw [walk_eq_bind]
    split
    case h_1 e _ => exact hsteps.throw e _
    case h_2 => exact hsteps.pure _ _
    case h_3 hfits =>
      have hentry : Discloses (bad.damage (.device bad.error)) bad.Past (readEntry offset) store :=
        hsteps.bind (hsteps.record ..) fun _ _ _ => hsteps.pure ..
      refine hsteps.bind hentry fun entry _ _ => hsteps.ite (fun _ => hsteps.pure ..) fun _ => ?_
      refine hsteps.bind (hsteps.passPayload ..) fun _ _ _ => ?_
      cases hnext : nextOffset offset entry.size with
      | error e => exact hsteps.throw e _
      | ok next =>
        have hend := fits_ok hfits
        have hbehind := nextOffset_ok hnext
        simp only [chunkHeaderSize] at hend hbehind
        exact hsteps.bind (ih _ (by omega) next _ rfl) fun _ _ _ => hsteps.pure ..

/-- What is listed on a damaged medium is what is listed on a sound one, or the device fails. -/
theorem beside_read {store' : Store}
    (htwin : (bad.damage (Error.device bad.error)).Twin store store') :
    Beside (bad.damage (.device bad.error)) bad.Past (read store) (read store') := by
  refine .bind_of_never (Store.beside_explaining .device (Store.beside_length htwin))
    fun fileLength t t' _ htwin => ?_
  refine .bind_of_never (Store.beside_explaining .device (Store.beside_seekTo 0 htwin))
    fun _ t t' _ htwin => ?_
  have hsteps := Store.steps_disclosing hbad
  refine Discloses.beside ?_ t' htwin
  refine hsteps.bind (hsteps.record ..) fun fileHeader _ _ => ?_
  exact hsteps.bind (hsteps.requireMarker ..) fun _ _ _ => discloses_walk hbad ..

end ChunkList

/-! ## Opening -/

namespace Reader

/-- What is opened on a damaged medium is what is opened on a sound one, or the device fails. -/
theorem beside_ofStore {store' : Store}
    (htwin : (bad.damage (Error.device bad.error)).Twin store store') :
    Run.Beside (bad.damage (.device bad.error)) bad.Past (ofStore store) (ofStore store') := by
  have hrelay (store : Store) : ofStore store =
      Run.relay id (fun header scan => ⟨header, header.stream.region, scan.journal⟩) Scan.store
        (Header.read ⟨store, .empty⟩) := by
    rw [ofStore]
    cases Header.read ⟨store, .empty⟩ <;> rfl
  have hscan : (Scan.damage bad).Twin ⟨store, .empty⟩ ⟨store', .empty⟩ := ⟨htwin, rfl⟩
  rw [hrelay, hrelay]
  refine (Header.beside_read hbad hscan).relay (fun _ _ hscans => hscans.1) ?_ rfl
    fun _ hpast => hpast
  -- The journals are those of the scans.
  intro header scan scan' hscans
  rw [hscans.2]

end Reader

end Records

namespace Reader

/-- Bytes that cannot be read are never taken for something else. Opening or listing a container on
a medium with `bad` bytes comes to what it comes to on the same medium without them, whatever that
is, or it fails with `bad.error`. Where opening succeeds on the sound medium and `bad.start` is not
in front of the samples, it gives the same reader on the damaged one. The error of the device can be
any but the one that stands for the end of the bytes; the medium may have other faults too, and may
split or interrupt its transfers differently from one run to the other, as `pace` says. -/
theorem ofStore_discloses_damage (hsound : store.faults.bad = none)
    (hbad : bad.error ≠ .endOfBytes) (pace : List Turn) :
    (Run.outcome ofStore (store.damaged bad pace) = Run.outcome ofStore store ∨
      Run.outcome ofStore (store.damaged bad pace) = .error (.device bad.error)) ∧
    (Run.outcome ChunkList.read (store.damaged bad pace) = Run.outcome ChunkList.read store ∨
      Run.outcome ChunkList.read (store.damaged bad pace) = .error (.device bad.error)) ∧
    ∀ reader opened, ofStore store = .ok reader opened → reader.region.offset ≤ bad.start →
      ∃ pace', ofStore (store.damaged bad pace) = .ok reader (opened.damaged bad pace') := by
  have htwin : (bad.damage (Error.device bad.error)).Twin store (store.damaged bad pace) :=
    ⟨hsound, pace, rfl⟩
  have hopens := beside_ofStore hbad htwin
  refine ⟨hopens.outcome_eq_or, (ChunkList.beside_read hbad htwin).outcome_eq_or, ?_⟩
  intro reader opened hopen hbehind
  rw [hopen] at hopens
  -- The cursor of an opened reader is at the first sample, which is not past the bad bytes.
  have hcursor : opened.cursor = reader.region.offset := (sound_of_ofStore hopen).2.1
  have hpast : ¬ bad.Past opened := by
    rw [BadArea.Past, hcursor]
    exact Nat.not_lt.2 hbehind
  obtain ⟨_, ⟨-, pace', rfl⟩, hdamaged⟩ := hopens.ok_of_not_past hpast
  exact ⟨pace', hdamaged⟩

/-- A chunk is passed over in front of the samples and another one follows them. The samples cannot
be read, on a medium that moves one byte at a time: the container is opened as if nothing were
wrong, and the listing, which has to look behind the samples, tells that the device has failed. -/
theorem ofStore_discloses_damage_of_samples :
    ∃ (store : Store) (bad : BadArea) (pace : List Turn) (reader : Reader) (opened : Store),
      store.faults.bad = none ∧ bad.error = .badSector ∧ ofStore store = .ok reader opened ∧
      reader.region.offset = 83 ∧ bad.start = 83 ∧
      (∃ opened', ofStore (store.damaged bad pace) = .ok reader opened') ∧
      Run.outcome ChunkList.read store = .ok [⟨.description, 8, 32⟩, ⟨.free, 52, 3⟩, ⟨.data, 67, 8⟩,
        ⟨.free, 87, 0⟩] ∧
      Run.outcome ChunkList.read (store.damaged bad pace) = .error (.device .badSector) := by
  let description : Description := ⟨⟨0x40E5888000000000⟩, Description.lpcm, 0, 2, 1, 1, 16⟩
  let behind : Bytes := (ChunkHeader.mk .free 0).toBytes
  let body : Layout.Body :=
    ⟨[⟨.ofChars 'f' 'r' 'e' 'e', [1, 2, 3], by decide⟩], 8, 0, [5, 6, 7, 8] ++ behind, by decide⟩
  let l : Layout := ⟨1, 0, description, [], body, by decide⟩
  let store : Store := { bytes := ⟨l.toBytes.toArray⟩ }
  let bad : BadArea := ⟨83, .badSector⟩
  let pace := Turn.steady 1 true 9
  obtain ⟨reader, opened, hopen, hoffset⟩ :
      ∃ reader opened, ofStore store = .ok reader opened ∧ reader.region.offset = 83 := by
    decide +kernel
  obtain ⟨entries, listed, hread, hentries⟩ : ∃ entries listed, ChunkList.read store =
      .ok entries listed ∧ entries = [⟨.description, 8, 32⟩, ⟨.free, 52, 3⟩, ⟨.data, 67, 8⟩,
        ⟨.free, 87, 0⟩] := by
    decide +kernel
  have hlisting : Run.outcome ChunkList.read store = .ok entries := by rw [Run.outcome, hread]
  have hlost : ¬ ∃ entries left, ChunkList.read (store.damaged bad pace) = .ok entries left ∧
      True := by
    decide +kernel
  have hdiffers : Run.outcome ChunkList.read (store.damaged bad pace) ≠
      Run.outcome ChunkList.read store := by
    rw [hlisting, Run.outcome]
    cases hdamaged : ChunkList.read (store.damaged bad pace) with
    | ok entries left => exact absurd ⟨entries, left, hdamaged, trivial⟩ hlost
    | error e left => exact nofun
  have hbad : bad.error ≠ .endOfBytes := by decide
  obtain ⟨-, hlists, hopens⟩ :=
    ofStore_discloses_damage (show store.faults.bad = none from rfl) hbad pace
  obtain ⟨pace', hsame⟩ := hopens reader opened hopen (Nat.le_of_eq hoffset)
  exact ⟨store, bad, pace, reader, opened, rfl, rfl, hopen, hoffset, rfl, ⟨_, hsame⟩,
    hentries ▸ hlisting, hlists.resolve_left hdiffers⟩

end Reader

end Caf
