import Caf.Proofs.Container.Observing
import Caf.Proofs.Container.Opening
import Caf.Proofs.Record.Spelling
import Caf.Proofs.Sample.Deciding

/-!
# What the text of a journal tells

A journal is handed out as text, and whoever reads the text takes each of its lines for a line of
the journal, and each line that opens with the mark of warnings for a warning. Parts of the lines
come from the file: its marker, the types of its chunks and the code of its encoding are shown as
they are, and a file can have any bytes there. It cannot tell anything with them that was not
recorded. No line breaks off, since every code is shown with printable characters, and no plain line
opens with the mark, since whatever comes from the file stands behind a label, except for the
marker, which has a line to itself and is too short.

## Main definitions

* `Journal.pieces`: a text cut at its newlines;
* `Journal.Legible`: the text of a journal tells its lines;
* `Journal.Line.Plain`: the lines whose text can be told.

## Main results

* `Journal.Legible.of_plain`: plain lines are told by the text;
* `Journal.Legible.eq_of_text_eq`: legible journals with the same text are the same;
* `Header.preserves_read`: reading a header records plain lines only;
* `Header.survey_journal_legible`: what is recorded while a header is read is told by the text.
-/

namespace Caf

namespace Journal

/-! ## Cutting a text -/

/-- What `line` puts into the text of its journal, apart from the newline. -/
def Line.told (line : Line) : String :=
  mark line.severity ++ line.text

/-- The line that a `piece` of a text is taken for: a warning when it opens with their mark. -/
def Line.ofTold (piece : String) : Line :=
  match piece.dropPrefix? (mark .warning) with
  | some rest => ⟨.warning, rest.copy⟩
  | none => ⟨.remark, piece⟩

/-- The pieces of `text` between its newlines. -/
def pieces (text : String) : List String :=
  (text.split '\n').toList.map String.Slice.copy

/-- The text of `journal` tells its lines. -/
structure Legible (journal : Journal) : Prop where
  /-- Cut at its newlines the text has one piece for each line, and nothing behind the last one. -/
  pieces_text : pieces journal.text = journal.lines.toList.map Line.told ++ [""]
  /-- A piece opens with the mark of warnings when its line is one, and only then. -/
  marked_iff : ∀ line ∈ journal.lines.toList,
    line.told.startsWith (mark .warning) ↔ line.severity = .warning
  /-- A piece without the mark, where it has one, is what its line says. -/
  ofTold_told : ∀ line ∈ journal.lines.toList, Line.ofTold line.told = line

/-- The text is made of the lines, with a newline behind each. -/
theorem text_eq_intercalate (journal : Journal) :
    journal.text =
      (String.singleton '\n').intercalate (journal.lines.toList.map Line.told ++ [""]) := by
  have hfold (lines : List Line) (text : String) :
      lines.foldl (fun text line => text ++ mark line.severity ++ line.text ++ "\n") text =
        text ++ (String.singleton '\n').intercalate (lines.map Line.told ++ [""]) := by
    -- Whatever is there already stands in front.
    induction lines generalizing text with
    | nil => simp
    | cons line lines ih =>
      have hne : lines.map Line.told ++ [""] ≠ [] := by simp
      rw [List.foldl_cons, ih, List.map_cons, List.cons_append,
        String.intercalate_cons_of_ne_nil hne]
      simp only [Line.told, String.append_assoc]
      rfl
  rw [text, ← Array.foldl_toList, hfold, String.empty_append]

/-! ## Plain lines -/

/-- A `text` that would not be taken for a warning. -/
def Unmarked (text : String) : Prop :=
  ¬ (mark .warning).toList <+: text.toList

/-- Whether a text would be taken for a warning is found out by looking at its front. -/
instance : DecidablePred Unmarked := fun text =>
  inferInstanceAs (Decidable (¬ (mark .warning).toList <+: text.toList))

/-- A label: a printable text that nothing behind it turns into a warning. -/
def Label (label : String) : Prop :=
  Printable label ∧ Unmarked label ∧ ¬ label.toList <+: (mark .warning).toList

/-- Whether a text is a label is found out by comparing it with the mark. -/
instance : DecidablePred Label := fun label =>
  inferInstanceAs (Decidable
    (Printable label ∧ Unmarked label ∧ ¬ label.toList <+: (mark .warning).toList))

/-- What stands behind `label` is not taken for a warning, whatever it is. -/
theorem Label.unmarked_append {label : String} (h : Label label) (rest : String) :
    Unmarked (label ++ rest) := by
  obtain ⟨-, hunmarked, hpart⟩ := h
  intro hmarked
  have hlabel : label.toList <+: (label ++ rest).toList := by
    rw [String.toList_append]
    exact List.prefix_append _ _
  -- Of two texts in front of the same text one is in front of the other.
  rcases List.prefix_or_prefix_of_prefix hmarked hlabel with hfront | hfront
  · exact hunmarked hfront
  · exact hpart hfront

/-- A `line` that can be told: it has no newline in it, and it is not taken for a warning unless it
is one. -/
structure Line.Plain (line : Line) : Prop where
  /-- It is printable. -/
  printable : Printable line.text
  /-- What a line that is no warning says does not open with the mark of warnings. -/
  unmarked : line.severity = .remark → Unmarked line.text

namespace Line.Plain

variable {line : Line}

theorem newline_not_mem_told (h : line.Plain) : '\n' ∉ line.told.toList := by
  have hmark : Printable (mark line.severity) := by
    cases line.severity <;> decide
  exact (printable_append.2 ⟨hmark, h.printable⟩).newline_not_mem

theorem startsWith_told_iff (h : line.Plain) :
    line.told.startsWith (mark .warning) ↔ line.severity = .warning := by
  rw [String.startsWith_string_iff]
  cases hseverity : line.severity with
  | remark =>
    have htold : line.told = line.text := by
      rw [told, hseverity, mark, String.empty_append]
    rw [htold]
    exact iff_of_false (h.unmarked hseverity) Severity.noConfusion
  | warning =>
    rw [told, hseverity, String.toList_append]
    exact iff_of_true (List.prefix_append _ _) rfl

theorem ofTold_told (h : line.Plain) : ofTold line.told = line := by
  rw [ofTold]
  cases hdrop : line.told.dropPrefix? (mark .warning) with
  | none =>
    have hremark : line.severity = .remark := by
      cases hseverity : line.severity with
      | remark => rfl
      | warning =>
        have hstarts := h.startsWith_told_iff.2 hseverity
        rw [String.dropPrefix?_eq_dropPrefix?_toSlice, String.Slice.dropPrefix?_eq_none_iff,
          String.startsWith_toSlice, hstarts] at hdrop
        cases hdrop
    obtain ⟨severity, text⟩ := line
    obtain rfl : severity = .remark := hremark
    exact congrArg (Line.mk .remark) (String.empty_append ..)
  | some rest =>
    have hsplit := String.eq_append_of_dropPrefix?_string_eq_some hdrop
    have hwarning : line.severity = .warning := by
      rw [← h.startsWith_told_iff, String.startsWith_string_iff, hsplit, String.toList_append]
      exact List.prefix_append _ _
    obtain ⟨severity, text⟩ := line
    obtain rfl : severity = .warning := hwarning
    exact congrArg (Line.mk .warning) ((String.append_right_inj _).1 hsplit).symm

end Line.Plain

/-- A journal of plain lines. -/
def Plain (journal : Journal) : Prop :=
  ∀ line ∈ journal.lines.toList, line.Plain

/-- Plain lines are told by the text: a `Plain` journal is `Legible`. -/
theorem Legible.of_plain {journal : Journal} (h : journal.Plain) : journal.Legible where
  pieces_text := by
    have hlines : ∀ piece ∈ journal.lines.toList.map Line.told ++ [""], '\n' ∉ piece.toList := by
      intro piece hpiece
      rcases List.mem_append.1 hpiece with hpiece | hpiece
      · obtain ⟨line, hline, rfl⟩ := List.mem_map.1 hpiece
        exact (h line hline).newline_not_mem_told
      · rw [List.mem_singleton.1 hpiece]
        decide
    rw [pieces, text_eq_intercalate]
    exact (String.toList_split_intercalate hlines).trans (if_neg (by simp))
  marked_iff line hline := (h line hline).startsWith_told_iff
  ofTold_told line hline := (h line hline).ofTold_told

/-- What the text of a legible journal tells is the journal. -/
theorem Legible.eq_of_text_eq {journal journal' : Journal} (h : journal.Legible)
    (h' : journal'.Legible) (htext : journal.text = journal'.text) : journal = journal' := by
  have hback {journal : Journal} (h : journal.Legible) :
      (pieces journal.text).dropLast.map Line.ofTold = journal.lines.toList := by
    rw [h.pieces_text, List.dropLast_concat, List.map_map]
    exact (List.map_congr_left h.ofTold_told).trans (List.map_id _)
  have hlines : journal.lines.toList = journal'.lines.toList := by
    rw [← hback h, ← hback h', htext]
  exact congrArg Journal.mk (Array.toList_inj.1 hlines)

/-! ## What is recorded -/

/-- A `code` has four bytes, and their text has no room for the mark of warnings. -/
theorem unmarked_display (code : FourCC) : Unmarked code.display := by
  rintro ⟨rest, hrest⟩
  rw [FourCC.toList_display] at hrest
  have hroom : 5 ≤ 4 := (FourCC.spell_drop_of_append hrest.symm (by decide)).1
  exact absurd hroom (by decide)

/-- With something behind it a code can be taken for a warning. -/
example : ¬ Unmarked ((FourCC.ofChars '*' '*' '*' '*').display ++ " : 4") := by
  decide

namespace Plain

variable {journal : Journal}

theorem empty : Plain empty := by
  intro line hline
  cases hline

theorem push (h : journal.Plain) {line : Line} (hline : line.Plain) :
    Plain ⟨journal.lines.push line⟩ := by
  intro line' hline'
  rw [Array.toList_push] at hline'
  rcases List.mem_append.1 hline' with hline' | hline'
  · exact h line' hline'
  · rwa [List.mem_singleton.1 hline']

theorem remark (h : journal.Plain) {text : String} (htext : Printable text)
    (hunmarked : Unmarked text) : (journal.remark text).Plain :=
  h.push ⟨htext, fun _ => hunmarked⟩

/-- A plain line may have anything printable behind `label`. -/
theorem labelled (h : journal.Plain) {label text : String} (hlabel : Label label)
    (htext : Printable text) : (journal.remark (label ++ text)).Plain :=
  h.remark (printable_append.2 ⟨hlabel.1, htext⟩) (hlabel.unmarked_append text)

/-- A warning may say anything printable. -/
theorem warn (h : journal.Plain) {text : String} (htext : Printable text) :
    (journal.warn text).Plain :=
  h.push ⟨htext, Severity.noConfusion⟩

theorem noteFileHeader (h : journal.Plain) (header : FileHeader) :
    (journal.noteFileHeader header).Plain :=
  (h.remark (FourCC.printable_display _) (unmarked_display _))
    |>.labelled (by decide) (printable_repr _)
    |>.labelled (by decide) (Hex.printable_ofNat _)

/-- A chunk that is read has a type that is no part of the mark. -/
theorem noteChunk (h : journal.Plain) {header : ChunkHeader}
    (hkind : header.kind = .description ∨ header.kind = .data) :
    (journal.noteChunk header).Plain := by
  have hlabel : Label (header.kind.display ++ " : ") := by
    rcases hkind with hkind | hkind <;> rw [hkind] <;> decide
  exact h.labelled hlabel (printable_toString_int _)

/-- A chunk that is passed over stands behind a blank, whatever the type in its `header` is. -/
theorem notePassedChunk (h : journal.Plain) (header : ChunkHeader) :
    (journal.notePassedChunk header).Plain := by
  rw [Journal.notePassedChunk, String.append_assoc, String.append_assoc, String.append_assoc]
  refine h.labelled (by decide) ?_
  simp only [ChunkKind.display, printable_append, FourCC.printable_display,
    printable_toString_int, true_and]
  decide

theorem noteDescription (h : journal.Plain) {header : ChunkHeader}
    (hkind : header.kind = .description) (d : Description) :
    (journal.noteDescription header d).Plain :=
  (h.noteChunk (.inl hkind))
    |>.labelled (by decide) ((printable_padLeft 5).2 (Binary64.printable_fixed 3 d.sampleRate))
    |>.labelled (by decide) (FourCC.printable_display _)
    |>.labelled (by decide) (Hex.printable_ofNat _)
    |>.labelled (by decide) (printable_repr _)
    |>.labelled (by decide) (printable_repr _)
    |>.labelled (by decide) (printable_repr _)
    |>.labelled (by decide) (printable_repr _)

theorem noteEditCount (h : journal.Plain) (count : UInt32) : (journal.noteEditCount count).Plain :=
  h.labelled (by decide) (printable_repr _)

/-- A rule that rejects a description `d` does so in words of its own. -/
theorem judge (h : journal.Plain) (d : Description) : (journal.judge d).2.Plain := by
  rw [Plain, lines_judge]
  split
  · exact h.push ⟨by decide, Severity.noConfusion⟩
  · exact h

end Plain

end Journal

/-! ## Steps of a scan -/

namespace Scan

theorem keeps_journal_onStore {α : Type} (operation : CafM α) :
    Run.Keeps journal (onStore operation) := by
  refine .of_ends fun scan => ?_
  rw [onStore]
  cases operation scan.store <;> rfl

/-- What is recorded so far is plain. -/
def Plain (scan : Scan) : Prop :=
  scan.journal.Plain

theorem preserves_onStore {α : Type} (operation : CafM α) :
    Run.Preserves Plain (onStore operation) :=
  .of_keeps (P := Journal.Plain) (keeps_journal_onStore operation)

/-- Every `Entry` is plain. -/
theorem Entry.plain {entry : Journal → Journal} (h : Entry entry) {journal : Journal}
    (hjournal : journal.Plain) : (entry journal).Plain := by
  cases h with
  | fileHeader header => exact hjournal.noteFileHeader header
  | smallDescription => exact hjournal.warn (by decide)
  | description hkind d => exact hjournal.noteDescription hkind d
  | data hkind => exact hjournal.noteChunk (.inr hkind)
  | editCount count => exact hjournal.noteEditCount count
  | passedChunk header => exact hjournal.notePassedChunk header
  | noData => exact hjournal.warn (by decide)
  | stop => exact hjournal.remark (by decide) (by decide)
  | judgement d => exact hjournal.judge d

/-- Each step of reading a header leaves the journal plain, whatever is done with the store. -/
theorem steps_plain : Steps (fun ⦃_⦄ _ _ => True)
    (fun ⦃_⦄ step scan => scan.Plain → (Run.after step scan).Plain) where
  toClosed := Run.Preserves.closed Plain
  store := by constructor <;> intros <;> first | trivial | constructor <;> intros <;> trivial
  onStore _ := preserves_onStore _ _
  note hentry _ := hentry.plain

end Scan

namespace Header

/-- Whatever is in the store, and however reading its header ends, plain lines are recorded. -/
theorem preserves_read : Run.Preserves Scan.Plain read := by
  refine .bind (Scan.preserves_onStore _) fun fileLength => ?_
  refine .bind (Scan.preserves_onStore _) fun _ => ?_
  exact Scan.steps_plain.readParts fileLength

/-- What is recorded for a header is plain, whatever is in the store and however reading ends. -/
theorem plain_survey (store : Store) : (survey store).1.1.Plain := by
  have hempty : Scan.Plain ⟨store, .empty⟩ := Journal.Plain.empty
  rw [survey]
  cases hread : read ⟨store, .empty⟩ with
  | ok header scan => exact preserves_read.of_ok hempty hread
  | error e scan => exact preserves_read.of_error hempty hread

/-- What a reader has recorded is what is recorded for the header alone. -/
theorem journal_of_ofStore {store left : Store} {reader : Reader}
    (h : Reader.ofStore store = .ok reader left) : reader.journal = (survey store).1.1 := by
  unfold Reader.ofStore at h
  unfold survey
  cases hread : read ⟨store, .empty⟩ with
  | ok header scan =>
    rw [hread] at h
    cases h
    rfl
  | error e scan =>
    rw [hread] at h
    cases h

/-- What is recorded while the header of `store` is read (`inspect_header`) is told by the text,
whatever is in the store and however reading ends, and so it is when a container is opened. Cut at
its newlines the text has one piece for each line, a piece opens with the mark of warnings exactly
when its line is a warning, and without the mark it is what the line says. Two headers with the same
text have the same lines. -/
theorem survey_journal_legible (store : Store) :
    (survey store).1.1.Legible ∧
      (∀ reader left, Reader.ofStore store = .ok reader left → reader.journal.Legible) ∧
      ∀ store', (survey store').1.1.text = (survey store).1.1.text →
        (survey store').1.1 = (survey store).1.1 := by
  have hlegible (store : Store) : (survey store).1.1.Legible := .of_plain (plain_survey store)
  refine ⟨hlegible store, ?_, ?_⟩
  · intro reader left hopen
    rw [journal_of_ofStore hopen]
    exact hlegible store
  · intro store' htext
    exact (hlegible store').eq_of_text_eq (hlegible store) htext

/-- A container with two chunks in front of its samples whose types look like warnings, one of them
on a line of its own. -/
theorem survey_journal_legible_of_stars :
    ∃ (store : Store) (reader : Reader) (left : Store),
      Reader.ofStore store = .ok reader left ∧ reader.journal.Legible ∧
        reader.journal.lines[11]? = some ⟨.remark, " **** : 1 (skipped)"⟩ ∧
        reader.journal.lines[12]? = some ⟨.remark, " \\x0a*** : 0 (skipped)"⟩ := by
  let description : Description := ⟨⟨0x40E5888000000000⟩, Description.lpcm, 0, 2, 1, 1, 16⟩
  let body : Layout.Body :=
    ⟨[⟨.ofChars '*' '*' '*' '*', [7], by decide⟩, ⟨.ofChars '\n' '*' '*' '*', [], by decide⟩],
      -1, 0, [7, 8], by decide⟩
  let l : Layout := ⟨1, 0, description, [], body, by decide⟩
  let store : Store := { bytes := ⟨l.toBytes.toArray⟩ }
  have hread : store.Readable := .of_memory _ (by decide)
  have hdescribes : l.description.Describes 44100 .pcm16 := ⟨by decide, by decide, by decide⟩
  obtain ⟨pace, hopen⟩ := Reader.ofStore_of_describes hread (l := l) rfl hdescribes
  refine ⟨store, _, _, hopen, (survey_journal_legible store).2.1 _ _ hopen, ?_, ?_⟩
  · decide
  · decide

end Header

end Caf
