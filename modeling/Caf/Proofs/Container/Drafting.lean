import Caf.Container.Reader
import Caf.Proofs.Run.Outcome
import Caf.Proofs.Sample.Description
import Mathlib.Data.List.Induction

/-!
# Composing one header after another

One draft composes the headers of any number of streams, some of which may be too long for a data
chunk. What it answers for a stream does not depend on what it was used for before. What it holds is
another matter: a stream that is refused takes the bytes of the header before it away, and leaves
its description. So the two parts of a draft speak of one header as long as nothing has been
composed, and after every stream that is not refused.

## Main definitions

* `Stream.header?`: the header of a stream, or why it has none;
* `HeaderDraft.composeAll`: what a draft answers for one stream after another, and what is left;
* `HeaderDraft.latest`: the last header among the answers;
* `HeaderDraft.Shows`: a draft whose two parts speak of one header.

## Main results

* `HeaderDraft.compose_eq`: what one stream leaves;
* `HeaderDraft.composeAll_shows_iff`: what any number of streams leave, and when the draft shows the
  last header.
-/

namespace Caf

/-- The description `d` stands behind the file header and the header of its chunk. -/
theorem description_headerBytes (d : Description) (declared : Int64) :
    ((headerBytes d declared).drop (fileHeaderSize + chunkHeaderSize)).take descriptionSize =
      d.toBytes := by
  obtain ⟨front, back, hfront, hheader⟩ := exists_around_description d declared
  rw [hheader, List.drop_left' hfront, List.take_left' d.length_toBytes]

namespace Stream

/-- The header of `stream`, which must not be too long for a data chunk. -/
def header? (stream : Stream) : Except Error Bytes :=
  if stream.length < 2 ^ 63 then .ok (headerBytes stream.description (Int64.ofNat stream.length))
  else .error (.badParameter .dataTooLong)

/-- A header has its fixed length, and the description of `stream` in its place. -/
theorem of_header? {stream : Stream} {header : Bytes} (h : stream.header? = .ok header) :
    header.length = 68 ∧ (header.drop 20).take 32 = stream.description.toBytes := by
  unfold header? at h
  split at h
  · cases h
    exact ⟨length_headerBytes _ _, description_headerBytes _ _⟩
  · cases h

end Stream

namespace HeaderDraft

/-- What `draft` answers when it composes streams one after another, and the draft that is left. -/
def composeAll (draft : HeaderDraft) : List Stream → List (Except Error Bytes) × HeaderDraft
  | [] => ([], draft)
  | stream :: rest =>
    let composed := draft.compose stream
    let others := composed.2.composeAll rest
    (composed.1 :: others.1, others.2)

/-- The last header among `answers`. -/
def latest (answers : List (Except Error Bytes)) : Option Bytes :=
  (answers.filterMap Except.toOption).getLast?

/-- The bytes and the description of `draft` speak of one header, or of none. -/
def Shows (draft : HeaderDraft) : Option Bytes → Prop
  | none => draft.bytes = [] ∧ draft.description = none
  | some header => draft.bytes = header ∧ header.length = 68 ∧
      ∃ d, draft.description = some d ∧ (header.drop 20).take 32 = d.toBytes

/-! ## Lemmas about `latest` -/

@[simp]
theorem latest_append_ok (answers : List (Except Error Bytes)) (header : Bytes) :
    latest (answers ++ [.ok header]) = some header := by
  simp [latest, Except.toOption]

@[simp]
theorem latest_append_error (answers : List (Except Error Bytes)) (e : Error) :
    latest (answers ++ [.error e]) = latest answers := by
  simp [latest, Except.toOption]

theorem latest_of_getLast? {answers : List (Except Error Bytes)} {header : Bytes}
    (h : answers.getLast? = some (.ok header)) : latest answers = some header := by
  obtain ⟨init, rfl⟩ := List.getLast?_eq_some_iff.1 h
  exact latest_append_ok init header

/-! ## One stream, and one more stream -/

variable {draft : HeaderDraft} {stream : Stream} {streams : List Stream}

/-- What `compose` leaves in a draft: the header and the description of the stream, or no bytes and
the description that was there. -/
theorem compose_eq (hframe : stream.bytesPerFrame < 2 ^ 32) :
    draft.compose stream =
      (stream.header?,
        match stream.header? with
        | .ok header => ⟨header, some stream.description⟩
        | .error _ => ⟨[], draft.description⟩) := by
  rw [compose, Stream.describe_eq hframe, Stream.header?]
  by_cases hlength : stream.length < 2 ^ 63
  · simp only [if_pos hlength]
  · simp only [if_neg hlength]

/-- A run over `others` goes on with the draft that the first streams have left. -/
theorem composeAll_append (others : List Stream) :
    draft.composeAll (streams ++ others) =
      ((draft.composeAll streams).1 ++ ((draft.composeAll streams).2.composeAll others).1,
        ((draft.composeAll streams).2.composeAll others).2) := by
  induction streams generalizing draft with
  | nil => rfl
  | cons stream rest ih => simp only [List.cons_append, composeAll, ih]

/-- The answers of `draft` are those that an unused draft gives. -/
theorem composeAll_answers (draft : HeaderDraft)
    (hframes : ∀ stream ∈ streams, stream.bytesPerFrame < 2 ^ 32) :
    (draft.composeAll streams).1 = streams.map Stream.header? := by
  induction streams generalizing draft with
  | nil => rfl
  | cons stream rest ih =>
    have hrest := ih (draft.compose stream).2
      fun other hother => hframes other (List.mem_cons_of_mem _ hother)
    rw [composeAll, List.map_cons, hrest, compose_eq (hframes stream List.mem_cons_self)]

/-- What one more `stream` adds to the answers and does to the draft. -/
theorem composeAll_concat (hframe : stream.bytesPerFrame < 2 ^ 32) :
    draft.composeAll (streams ++ [stream]) =
      ((draft.composeAll streams).1 ++ [stream.header?],
        match stream.header? with
        | .ok header => ⟨header, some stream.description⟩
        | .error _ => ⟨[], (draft.composeAll streams).2.description⟩) := by
  rw [composeAll_append, composeAll, composeAll, compose_eq hframe]

/-! ## What a run leaves -/

/-- What failed since does not change what the description of a draft speaks of: the `latest`
header, whose bytes may be gone. -/
theorem description_composeAll (hframes : ∀ stream ∈ streams, stream.bytesPerFrame < 2 ^ 32) :
    (empty.composeAll streams).2.description.map Description.toBytes =
      (latest (empty.composeAll streams).1).map fun header => (header.drop 20).take 32 := by
  -- From the end: a stream with a header brings its description, any other leaves what is there.
  induction streams using List.reverseRecOn with
  | nil => rfl
  | append_singleton init stream ih =>
    have hframe := hframes stream (List.mem_append_right init List.mem_cons_self)
    rw [composeAll_concat hframe]
    cases hheader : stream.header? with
    | ok header =>
      obtain ⟨-, hdescription⟩ := Stream.of_header? hheader
      simp only [latest_append_ok, Option.map_some, hdescription]
    | error e =>
      simp only [latest_append_error]
      exact ih fun other hother => hframes other (List.mem_append_left _ hother)

/-- A draft that does not hold the last header holds no bytes. -/
theorem bytes_composeAll (hframes : ∀ stream ∈ streams, stream.bytesPerFrame < 2 ^ 32) :
    (empty.composeAll streams).2.bytes =
      match (empty.composeAll streams).1.getLast? with
      | some (.ok header) => header
      | _ => [] := by
  cases streams using List.reverseRecOn with
  | nil => rfl
  | append_singleton init stream =>
    rw [composeAll_concat (hframes stream (List.mem_append_right init List.mem_cons_self))]
    simp only [List.getLast?_concat]
    cases stream.header? <;> rfl

/-- The draft `left` after any number of `streams`. Each stream that is not too long has been
answered by its header, whatever came before, and the others by their refusal. The description is
that in the last header. The bytes are that header, too, exactly if nothing has been refused since:
after a refusal there are no bytes. So a draft `Shows` the last header after a stream that has one,
and it shows that there is none while there is none, and otherwise its two parts disagree. -/
theorem composeAll_shows_iff {answers : List (Except Error Bytes)} {left : HeaderDraft}
    (hframes : ∀ stream ∈ streams, stream.bytesPerFrame < 2 ^ 32)
    (hrun : empty.composeAll streams = (answers, left)) :
    answers = streams.map Stream.header? ∧
    left.description.map Description.toBytes =
      (latest answers).map (fun header => (header.drop 20).take 32) ∧
    (∀ e, answers.getLast? = some (.error e) → left.bytes = []) ∧
    (left.Shows (latest answers) ↔
      latest answers = none ∨ ∃ header, answers.getLast? = some (.ok header)) := by
  have hanswers := composeAll_answers empty hframes
  have hdescription := description_composeAll hframes
  have hbytes := bytes_composeAll hframes
  simp only [hrun] at hanswers hdescription hbytes
  refine ⟨hanswers, hdescription, ?_, ?_⟩
  · intro e he
    simpa only [he] using hbytes
  cases hlatest : latest answers with
  | none =>
    -- The last answer is not a header either, and so there are no bytes.
    have hnone : left.bytes = [] := by
      rw [hbytes]
      split
      · rename_i header hlast
        rw [latest_of_getLast? hlast] at hlatest
        cases hlatest
      · rfl
    rw [hlatest] at hdescription
    exact iff_of_true ⟨hnone, Option.map_eq_none_iff.1 hdescription⟩ (.inl rfl)
  | some header =>
    rw [hlatest] at hdescription
    obtain ⟨d, hd, hencoded⟩ := Option.map_eq_some_iff.1 hdescription
    constructor
    · -- There are bytes only behind a header.
      rintro ⟨hheader, hlength, -⟩
      right
      rw [hbytes] at hheader
      split at hheader
      · rename_i last hlast
        exact ⟨last, hlast⟩
      · subst hheader
        cases hlength
    · rintro (hcontra | ⟨last, hlast⟩)
      · cases hcontra
      · obtain rfl := Option.some.inj ((latest_of_getLast? hlast).symm.trans hlatest)
        have hmem := List.mem_of_getLast? hlast
        rw [hanswers] at hmem
        obtain ⟨stream, -, hstream⟩ := List.mem_map.1 hmem
        exact ⟨by rw [hbytes, hlast], (Stream.of_header? hstream).1, d, hd, hencoded.symm⟩

/-- A stream that has a header, one that is too long, and one that has a header again. -/
theorem composeAll_shows_iff_mixed :
    ∃ (streams : List Stream) (answers : List (Except Error Bytes)) (left : HeaderDraft),
      empty.composeAll streams = (answers, left) ∧ answers.length = 3 ∧
      Except.error (.badParameter .dataTooLong) ∈ answers ∧
      left.Shows (latest answers) ∧ left.bytes ≠ [] := by
  let first : Stream := .blank 44100 1 .pcm16 .big
  let last : Stream := .blank 8000 2 .alaw .little
  let long : Stream := { first with length := 2 ^ 63 }
  have hframes : ∀ stream ∈ [first, long, last], stream.bytesPerFrame < 2 ^ 32 := by decide
  obtain ⟨hanswers, -, -, hshows⟩ := composeAll_shows_iff hframes rfl
  have hlast : last.header? = .ok (headerBytes last.description 0) := rfl
  have hshown := hshows.2 (.inr ⟨_, congrArg List.getLast? hanswers⟩)
  refine ⟨[first, long, last], _, _, rfl, rfl, ?_, hshown, ?_⟩
  · rw [hanswers]
    decide +kernel
  · decide +kernel

/-- The bytes and the description of a draft do not always speak of one header. A container of a few
bytes is opened from a store that claims to end far behind them. Its stream is too long, and once a
draft that holds the header of another stream has refused it, there are no bytes but still the
description of the other stream. -/
theorem composeAll_stale :
    ∃ (store opened : Store) (reader : Reader) (header : Bytes) (d : Description),
      Reader.ofStore store = .ok reader opened ∧
      (∀ stream ∈ [Stream.blank 44100 1 .pcm16 .big, reader.stream],
        stream.bytesPerFrame < 2 ^ 32 ∧ stream.length < 2 ^ 64) ∧
      empty.composeAll [Stream.blank 44100 1 .pcm16 .big, reader.stream] =
        ([.ok header, .error (.badParameter .dataTooLong)], ⟨[], some d⟩) ∧
      latest [.ok header, .error (.badParameter .dataTooLong)] = some header ∧
      ¬ Shows ⟨[], some d⟩ none ∧ ¬ Shows ⟨[], some d⟩ (some header) := by
  let stream : Stream := .blank 44100 1 .pcm16 .big
  let store : Store :=
    { bytes := ⟨(headerBytes stream.description 0).toArray⟩, faults := { phantom := 2 ^ 63 } }
  -- The length of the samples is what the store claims, and not what it holds.
  obtain ⟨reader, opened, hopen, hlong⟩ : ∃ reader opened, Reader.ofStore store =
      .ok reader opened ∧ reader.stream = { stream with start := some 68, length := 2 ^ 63 } := by
    decide +kernel
  refine ⟨store, opened, reader, headerBytes stream.description 0, stream.description, hopen, ?_⟩
  rw [hlong]
  refine ⟨by decide, rfl, rfl, ?_, ?_⟩
  · rintro ⟨-, hdescription⟩
    cases hdescription
  · rintro ⟨hheader, -⟩
    have hlength := congrArg List.length hheader
    rw [length_headerBytes] at hlength
    cases hlength

end HeaderDraft

end Caf
