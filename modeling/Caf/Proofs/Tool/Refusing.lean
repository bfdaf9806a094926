import Caf.Proofs.Desk.Refusing
import Caf.Tool.Run

/-!
# What is refused before anything is touched

A new stream goes through three checks, and each is made before the step that would destroy
something. The tool looks up the names and checks the numbers before it takes the path. At a path
the numbers are checked before the file is emptied. In a store the length is measured before a
header is written. So what is refused is as it was: the store with its cursor, and every file, the
one at the path too.

## Main definitions

* `StreamRequest.Invalid`: the numbers that no stream is started with;
* `Tool.NewFile.Refused`: the names and numbers that no file is created with.

## Main results

* `Writer.create_cases`: in which stores a stream is started, and what a refusal leaves;
* `Tool.streamRequest_eq_error_iff`: what the tool refuses;
* `Tool.create_touches_nothing`: what is refused is untouched, in a store, at a path and by the
  tool.
-/

namespace Caf

/-! ## Stores -/

namespace StreamRequest

variable {request : StreamRequest}

/-- The numbers in `request` with which no stream is started. -/
def Invalid (request : StreamRequest) : Prop :=
  request.channels = 0 ∨ 1024 < request.channels.toNat ∨ request.sampleRate = 0

/-- Only the `Invalid` numbers are refused by the checks. -/
theorem not_invalid_iff : ¬ request.Invalid ↔ request.check = .ok () := by
  rw [check_eq_ok_iff, Invalid, not_or, not_or, Nat.not_lt]
  exact Iff.rfl

theorem exists_error_iff : (∃ e, request.check = .error e) ↔ request.Invalid := by
  cases hcheck : request.check with
  | error e =>
    have hinvalid : ¬ ¬ request.Invalid := by
      rw [not_invalid_iff, hcheck]
      exact nofun
    exact iff_of_true ⟨e, rfl⟩ (Classical.not_not.1 hinvalid)
  | ok _ => exact iff_of_false nofun (not_invalid_iff.2 hcheck)

end StreamRequest

namespace Writer

variable {request : StreamRequest} {store : Store}

/-- A store with bytes cannot be claimed. It is measured for that, and measuring leaves the cursor
where it is. -/
theorem claimEmpty_of_ne (hlength : Store.length store = .ok store.bytes.size store)
    (hne : store.bytes.size ≠ 0) :
    claimEmpty store = .error (.badParameter (.storeNotEmpty store.bytes.size)) store := by
  rw [claimEmpty, Run.bind_of_ok (Store.run_of_ok hlength)]
  simp only [hne, ne_eq, not_false_eq_true, ↓reduceIte]
  rfl

/-- A stream is started in an empty store for a `request` that passes the checks. Everything else is
refused, and the store is the same then. -/
theorem create_cases (request : StreamRequest) (haccepting : store.Accepting headerSize)
    (hcursor : store.cursor ≤ store.medium.reach) (hsize : store.bytes.size ≤ store.medium.reach) :
    (∃ e, create request store = .error e store ∧ (request.Invalid ∨ store.bytes.size ≠ 0)) ∨
      ∃ writer left, create request store = .ok writer left ∧
        ¬ request.Invalid ∧ store.bytes.size = 0 := by
  -- The numbers are looked at first, and only then is the store measured.
  cases hcheck : request.check with
  | error e =>
    have hinvalid := StreamRequest.exists_error_iff.1 ⟨e, hcheck⟩
    exact .inl ⟨e, create_of_refused hcheck store, .inl hinvalid⟩
  | ok _ =>
    by_cases hempty : store.bytes.size = 0
    case pos =>
      obtain ⟨writer, hcreate, -⟩ :=
        create_holds hcheck hempty hcursor haccepting (Nat.le_refl headerSize)
      exact .inr ⟨writer, _, hcreate, StreamRequest.not_invalid_iff.2 hcheck, hempty⟩
    case neg =>
      have hlength := Store.length_eq haccepting.seek haccepting.phantom hcursor hsize
      refine .inl ⟨.badParameter (.storeNotEmpty store.bytes.size), ?_, .inr hempty⟩
      rw [create, StreamRequest.requested_eq hcheck]
      simp only [claimEmpty_of_ne hlength hempty]

end Writer

/-! ## Paths -/

/-- The file at `path` is not even looked at for numbers that no stream is started with. -/
theorem Desk.create_of_invalid {request : StreamRequest} (h : request.Invalid) (desk : Desk)
    (path : String) : ∃ e, desk.create path request = (.error e, desk.release) := by
  obtain ⟨e, hcheck⟩ := StreamRequest.exists_error_iff.2 h
  exact ⟨e, by rw [create, hcheck]⟩

/-- Where no file is open there is nothing to let go of. -/
theorem Desk.release_of_closed {desk : Desk} (h : desk.handle = none) : desk.release = desk := by
  rw [release, onHandle, h]

/-! ## The tool -/

/-- A `name` that is looked for in vain is nobody's name. -/
theorem find?_names_eq_none_iff {α : Type} {all : List α} (hall : ∀ x, x ∈ all)
    (names : α → List String) (name : String) :
    all.find? (fun x => (names x).contains name) = none ↔ ∀ x, name ∉ names x := by
  simp only [List.find?_eq_none, List.contains_iff_mem, hall, forall_const]

theorem Encoding.ofName_eq_error_iff {given : String} :
    (∃ e, ofName given = .error e) ↔ ∀ encoding : Encoding, normalName given ∉ encoding.names := by
  rw [← find?_names_eq_none_iff mem_all names, ofName]
  cases all.find? fun encoding => encoding.names.contains (normalName given) <;> simp

theorem ByteOrderRequest.mem_all (request : ByteOrderRequest) : request ∈ all := by
  cases request <;> decide

theorem ByteOrderRequest.ofName_eq_error_iff {given : String} :
    (∃ e, ofName given = .error e) ↔
      ∀ request : ByteOrderRequest, normalName given ∉ request.names := by
  rw [← find?_names_eq_none_iff mem_all names, ofName]
  cases all.find? fun request => request.names.contains (normalName given) <;> simp

namespace Tool

/-- The `options` that no file is created with: a name that no encoding goes by, one that no byte
order goes by, and the numbers that no stream is started with. -/
def NewFile.Refused (options : NewFile) : Prop :=
  (∀ encoding : Encoding, normalName options.encoding ∉ encoding.names) ∨
  (∀ order : ByteOrderRequest, normalName options.order ∉ order.names) ∨
  options.channels = 0 ∨ 1024 < options.channels.toNat ∨ options.sampleRate = 0

variable {options : NewFile} {directory : Directory}

/-- The tool refuses `options` of this kind and no others, and it takes no look at the files for it.
-/
theorem streamRequest_eq_error_iff :
    (∃ trouble, streamRequest options = .error trouble) ↔ options.Refused := by
  rw [NewFile.Refused, ← Encoding.ofName_eq_error_iff, ← ByteOrderRequest.ofName_eq_error_iff,
    streamRequest]
  cases Encoding.ofName options.encoding with
  | error e => simp
  | ok encoding =>
    cases ByteOrderRequest.ofName options.order with
    | error e => simp
    | ok order =>
      simp only [reduceCtorEq, exists_false, false_or]
      have hchecks : (∃ e, StreamRequest.check
          ⟨encoding, options.channels, options.sampleRate, order⟩ = .error e) ↔ _ :=
        StreamRequest.exists_error_iff
      refine Iff.trans ?_ hchecks
      cases StreamRequest.check _ <;> simp

/-- A command with refused `options` fails, and the files are as they were. -/
theorem runCommand_of_refused (h : options.Refused) (colour : Bool) (directory : Directory) :
    ∃ trouble, runCommand colour directory (.create options) =
      .trouble colour directory trouble := by
  obtain ⟨trouble, hrefused⟩ := streamRequest_eq_error_iff.2 h
  exact ⟨trouble, by rw [runCommand, hrefused]⟩

/-- No `command` but the one that creates a file touches a file. -/
theorem directory_runCommand (colour : Bool) (directory : Directory) (command : Command)
    (h : ∀ options, command = .create options → options.Refused) :
    (runCommand colour directory command).directory = directory := by
  cases command with
  | create options =>
    obtain ⟨trouble, hrun⟩ := runCommand_of_refused (h options rfl) colour directory
    rw [hrun]
    rfl
  | info path json hash =>
    rw [runCommand]
    cases summarize directory path hash <;> rfl
  | chunks path json =>
    rw [runCommand]
    cases listing directory path <;> rfl
  | log path =>
    rw [runCommand]
    cases directory.openToRead path with
    | error e => rfl
    | ok opened =>
      simp only
      split <;> rfl
  | formats => rfl

/-- Arguments `args` that ask for no new file, or for one that is refused, touch no file. -/
theorem directory_run (colour : Bool) (args : List String) (directory : Directory)
    (h : ∀ options, Request.ofArguments args = .run (.create options) → options.Refused) :
    (run colour args directory).directory = directory := by
  unfold run
  cases hrequest : Request.ofArguments args with
  | run command =>
    exact directory_runCommand colour directory command
      fun options hcommand => h options (hcommand ▸ hrequest)
  | version command => cases command <;> rfl
  | help => rfl
  | misuse => rfl

/-- What `create` refuses is untouched. In a `store` without faults, wherever its cursor stands, a
stream is refused exactly for numbers that are out of range and where there are bytes, and the store
is the same then, with its cursor. At a path, numbers that are out of range are refused before the
path is looked at, so that every file is as it was. The tool does that for names that it does not
know, too; and of all `args` that it can be given, only those for a file that it accepts touch a
file. -/
theorem create_touches_nothing :
    (∀ (request : StreamRequest) (store : Store), store.Accepting headerSize →
      store.cursor ≤ store.medium.reach → store.bytes.size ≤ store.medium.reach →
        ((∃ e left, Writer.create request store = .error e left) ↔
          request.Invalid ∨ store.bytes.size ≠ 0) ∧
        ∀ e left, Writer.create request store = .error e left → left = store) ∧
    (∀ (request : StreamRequest) (desk : Desk) (path : String), request.Invalid →
      ∃ e, desk.create path request = (.error e, desk.release) ∧
        (desk.handle = none → desk.release = desk)) ∧
    (∀ (colour : Bool) (directory : Directory) (options : NewFile), options.Refused →
      ∃ trouble, runCommand colour directory (.create options) =
        .trouble colour directory trouble) ∧
    ∀ (colour : Bool) (args : List String) (directory : Directory),
      (∀ options, Request.ofArguments args = .run (.create options) → options.Refused) →
        (run colour args directory).directory = directory := by
  refine ⟨?_, ?_, fun colour directory options h => runCommand_of_refused h colour directory,
    directory_run⟩
  · intro request store haccepting hcursor hsize
    rcases Writer.create_cases request haccepting hcursor hsize with
      ⟨e, hcreate, hcause⟩ | ⟨writer, left, hcreate, hvalid, hempty⟩
    · refine ⟨iff_of_true ⟨e, store, hcreate⟩ hcause, ?_⟩
      intro _ left h
      rw [hcreate] at h
      cases h
      rfl
    -- A session that has started refutes both the error and its cause.
    · have hstarted : ∀ e left, Writer.create request store ≠ .error e left := by
        intro e left h
        rw [hcreate] at h
        cases h
      refine ⟨iff_of_false ?_ ?_, fun e left h => absurd h (hstarted e left)⟩
      · exact fun ⟨e, left, h⟩ => hstarted e left h
      · exact fun hcause => hcause.elim hvalid fun hne => hne hempty
  · intro request desk path hinvalid
    obtain ⟨e, hcreate⟩ := Desk.create_of_invalid hinvalid desk path
    exact ⟨e, hcreate, Desk.release_of_closed⟩

/-- Three bytes in a store stay there, with the cursor behind the second of them, and a file stays
there that was to be replaced by one with more channels than there can be. -/
theorem create_touches_nothing_of_present :
    (∃ e, Writer.create (.mono .pcm16 8000) { bytes := ⟨#[1, 2, 3]⟩, cursor := 2 } =
      .error e { bytes := ⟨#[1, 2, 3]⟩, cursor := 2 }) ∧
    ∃ args directory, directory.files.length = 1 ∧
      Request.ofArguments args = .run (.create { path := "old.caf", channels := 1025 }) ∧
      (run false args directory).directory = directory ∧ (run false args directory).exit = 1 := by
  obtain ⟨hstore, -, hcommand, hrun⟩ := create_touches_nothing
  let store : Store := { bytes := ⟨#[1, 2, 3]⟩, cursor := 2 }
  have haccepting : store.Accepting headerSize :=
    ⟨rfl, rfl, rfl, rfl, rfl, by decide, by rintro _ ⟨rfl⟩; decide, by decide⟩
  obtain ⟨hrefused, hsame⟩ := hstore (.mono .pcm16 8000) store haccepting (by decide) (by decide)
  obtain ⟨e, left, hcreate⟩ := hrefused.2 (.inr (by decide))
  rw [hsame e left hcreate] at hcreate
  let directory : Directory := { files := [⟨["old.caf"], ⟨#[1, 2, 3]⟩⟩] }
  let options : NewFile := { path := "old.caf", channels := 1025 }
  have hrequest :
      Request.ofArguments ["create", "old.caf", "-c", "1025"] = .run (.create options) := by
    decide +kernel
  have hmany : options.Refused := .inr (.inr (.inr (.inl (by decide))))
  obtain ⟨trouble, hfails⟩ := hcommand false directory options hmany
  refine ⟨⟨e, hcreate⟩, _, directory, rfl, hrequest, ?_, ?_⟩
  · refine hrun false _ directory fun other hother => ?_
    rw [hrequest] at hother
    cases hother
    exact hmany
  · rw [run, hrequest]
    simp only [hfails, Outcome.trouble]

end Tool

end Caf
