/-
Reading the report back.

`Csv.read` is the usual reader of comma-separated values, character by
character: a cell may stand in quotes, with quotes in it doubled, and outside
quotes a carriage return, a line feed, or the two together end a record. The
writer puts a cell in quotes only for a comma, a quote or a line feed, so the two
do not agree on a lone carriage return. That is all they disagree on. A line whose
cells are `Readable` reads back as these cells (`run_line`), one with another
cell as something else (`exists_wrong_record`), and as records are only ever
added (`records_run`), the whole report reads back exactly if each of its cells is
readable: `read_lines_iff`.
-/
import CommandTrace.Csv
import CommandTrace.Proofs.Text

namespace CommandTrace

namespace Csv

/-! ## The reader -/

def carriageReturn : CodePoint := .ofChar '\r'

/-- Outside quotes, the character ends a record. -/
def endsRecord (p : CodePoint) : Bool :=
  p = carriageReturn || p = lineFeed

/-- Where a reader is. -/
inductive Mode where
  | recordStart
  /-- A record starts, unless a line feed follows: that is still part of the
  line end. -/
  | afterReturn
  | cellStart
  /-- In a cell that has no quotes, or none any more. -/
  | plain
  | quoted
  /-- After a quote in a cell in quotes, which ends them unless another one
  follows. -/
  | quoteSeen
deriving DecidableEq, Repr

/-- What has been read: whole records, the cells of the one after them, and the
start of a cell. -/
structure Reader where
  mode : Mode := .recordStart
  part : Text := []
  cells : List Text := []
  records : List (List Text) := []
deriving DecidableEq, Repr

namespace Reader

def addChar (s : Reader) (mode : Mode) (p : CodePoint) : Reader :=
  { s with mode, part := s.part ++ [p] }

def endCell (s : Reader) : Reader :=
  { s with mode := .cellStart, part := [], cells := s.cells ++ [s.part] }

/-- Ends a record with a line end that starts with `p`. -/
def endRecord (s : Reader) (p : CodePoint) : Reader where
  mode := if p = carriageReturn then .afterReturn else .recordStart
  records := s.records ++ [s.cells]

def stepPlain (s : Reader) (p : CodePoint) : Reader :=
  if endsRecord p then s.endCell.endRecord p
  else if p = comma then s.endCell
  else s.addChar .plain p

def stepCellStart (s : Reader) (p : CodePoint) : Reader :=
  if p = quote then { s with mode := .quoted } else s.stepPlain p

/-- An empty line is a record without cells. -/
def stepRecordStart (s : Reader) (p : CodePoint) : Reader :=
  if endsRecord p then s.endRecord p else s.stepCellStart p

def step (s : Reader) (p : CodePoint) : Reader :=
  match s.mode with
  | .recordStart => s.stepRecordStart p
  | .afterReturn => if p = lineFeed then { s with mode := .recordStart } else s.stepRecordStart p
  | .cellStart => s.stepCellStart p
  | .plain => s.stepPlain p
  | .quoted => if p = quote then { s with mode := .quoteSeen } else s.addChar .quoted p
  | .quoteSeen => if p = quote then s.addChar .quoted p else s.stepPlain p

def run (s : Reader) (text : Text) : Reader :=
  text.foldl step s

/-- The end of the text ends a record that has been started. -/
def result (s : Reader) : List (List Text) :=
  match s.mode with
  | .recordStart | .afterReturn => s.records
  | _ => s.records ++ [s.cells ++ [s.part]]

end Reader

/-- The records of a text. -/
def read (text : Text) : List (List Text) :=
  (Reader.run {} text).result

example : read (.ofString "a,\"b\r\"\"\"\r\n\rc") =
    [[.ofString "a", .ofString "b\r\""], [], [.ofString "c"]] := by decide

/-! ## Records are only added -/

namespace Reader

theorem run_append (s : Reader) (text text' : Text) : s.run (text ++ text') = (s.run text).run text' :=
  List.foldl_append

theorem run_cons (s : Reader) (p : CodePoint) (text : Text) : s.run (p :: text) = (s.step p).run text := rfl

theorem records_stepPlain (s : Reader) (p : CodePoint) : s.records <+: (s.stepPlain p).records := by
  unfold stepPlain
  split
  · exact List.prefix_append _ _
  split <;> exact List.prefix_rfl

theorem records_stepRecordStart (s : Reader) (p : CodePoint) : s.records <+: (s.stepRecordStart p).records := by
  unfold stepRecordStart stepCellStart
  split
  · exact List.prefix_append _ _
  split
  · exact List.prefix_rfl
  · exact s.records_stepPlain p

theorem records_step (s : Reader) (p : CodePoint) : s.records <+: (s.step p).records := by
  unfold step stepCellStart
  split
  · exact s.records_stepRecordStart p
  · split
    · exact List.prefix_rfl
    · exact s.records_stepRecordStart p
  · split
    · exact List.prefix_rfl
    · exact s.records_stepPlain p
  · exact s.records_stepPlain p
  · split <;> exact List.prefix_rfl
  · split
    · exact List.prefix_rfl
    · exact s.records_stepPlain p

theorem records_run (s : Reader) (text : Text) : s.records <+: (s.run text).records := by
  induction text generalizing s with
  | nil => exact List.prefix_rfl
  | cons p text ih => exact (s.records_step p).trans (ih (s.step p))

theorem records_result (s : Reader) : s.records <+: s.result := by
  unfold result
  split
  · exact List.prefix_rfl
  · exact List.prefix_rfl
  · exact List.prefix_append _ _

/-! ## One cell -/

/-- A comma or a line end would end the cell. -/
def AtCellEnd (mode : Mode) : Prop :=
  mode = .cellStart ∨ mode = .plain ∨ mode = .quoteSeen

variable {cells : List Text} {records : List (List Text)}

theorem step_atCellEnd {mode : Mode} (h : AtCellEnd mode) {p : CodePoint} (hp : p ≠ quote) (part : Text) :
    step ⟨mode, part, cells, records⟩ p = stepPlain ⟨mode, part, cells, records⟩ p := by
  rcases h with rfl | rfl | rfl <;> simp [step, stepCellStart, hp]

theorem step_comma {mode : Mode} (h : AtCellEnd mode) (part : Text) :
    step ⟨mode, part, cells, records⟩ comma = ⟨.cellStart, [], cells ++ [part], records⟩ := by
  rw [step_atCellEnd h (by decide)]
  rfl

theorem step_lineFeed {mode : Mode} (h : AtCellEnd mode) (part : Text) :
    step ⟨mode, part, cells, records⟩ lineFeed = ⟨.recordStart, [], [], records ++ [cells ++ [part]]⟩ := by
  rw [step_atCellEnd h (by decide)]
  rfl

theorem step_carriageReturn {mode : Mode} (h : AtCellEnd mode) (part : Text) :
    step ⟨mode, part, cells, records⟩ carriageReturn = ⟨.afterReturn, [], [], records ++ [cells ++ [part]]⟩ := by
  rw [step_atCellEnd h (by decide)]
  rfl

/-- The character has no meaning to the reader. -/
def IsOrdinary (p : CodePoint) : Prop :=
  p ≠ comma ∧ p ≠ quote ∧ endsRecord p = false

theorem run_plain {text : Text} (h : ∀ p ∈ text, IsOrdinary p) (part : Text) :
    run ⟨.plain, part, cells, records⟩ text = ⟨.plain, part ++ text, cells, records⟩ := by
  induction text generalizing part with
  | nil => simp [run]
  | cons p text ih =>
    obtain ⟨hcomma, -, hend⟩ := h p (by simp)
    have hstep : step ⟨.plain, part, cells, records⟩ p = ⟨.plain, part ++ [p], cells, records⟩ := by
      simp [step, stepPlain, hcomma, hend, addChar]
    rw [run_cons, hstep, ih fun q hq => h q (by simp [hq])]
    simp

/-- A text of ordinary characters is read as it stands. -/
theorem run_ordinary {text : Text} (h : ∀ p ∈ text, IsOrdinary p) (cells : List Text)
    (records : List (List Text)) :
    ∃ mode, AtCellEnd mode ∧ run ⟨.cellStart, [], cells, records⟩ text = ⟨mode, text, cells, records⟩ := by
  cases text with
  | nil => exact ⟨.cellStart, .inl rfl, rfl⟩
  | cons p text =>
    obtain ⟨hcomma, hquote, hend⟩ := h p (by simp)
    have hstep : step ⟨.cellStart, [], cells, records⟩ p = ⟨.plain, [p], cells, records⟩ := by
      simp [step, stepCellStart, stepPlain, hcomma, hquote, hend, addChar]
    refine ⟨.plain, .inr (.inl rfl), ?_⟩
    rw [run_cons, hstep, run_plain fun q hq => h q (by simp [hq])]
    rfl

/-- What stands in quotes is read whatever it is. -/
theorem run_doubled (text part : Text) :
    run ⟨.quoted, part, cells, records⟩ (text.flatMap fun p => if p = quote then [quote, quote] else [p]) =
      ⟨.quoted, part ++ text, cells, records⟩ := by
  induction text generalizing part with
  | nil => simp [run]
  | cons p text ih =>
    have hstep : run ⟨.quoted, part, cells, records⟩ (if p = quote then [quote, quote] else [p]) =
        ⟨.quoted, part ++ [p], cells, records⟩ := by
      by_cases hp : p = quote
      · rw [if_pos hp, hp]
        rfl
      · rw [if_neg hp, run_cons]
        simp [step, hp, addChar, run]
    rw [List.flatMap_cons, run_append, hstep, ih]
    simp

end Reader

/-- A carriage return in the cell is not the only reason to put it in quotes. -/
def Readable (text : Text) : Prop :=
  carriageReturn ∈ text → comma ∈ text ∨ quote ∈ text ∨ lineFeed ∈ text

instance (text : Text) : Decidable (Readable text) :=
  inferInstanceAs (Decidable (_ → _))

theorem needsQuotes_iff {text : Text} :
    needsQuotes text = true ↔ comma ∈ text ∨ quote ∈ text ∨ lineFeed ∈ text := by
  simp only [needsQuotes, List.any_eq_true, Bool.or_eq_true, decide_eq_true_eq]
  constructor
  · rintro ⟨p, hp, (rfl | rfl) | rfl⟩
    · exact .inl hp
    · exact .inr (.inl hp)
    · exact .inr (.inr hp)
  · rintro (h | h | h)
    · exact ⟨comma, h, .inl (.inl rfl)⟩
    · exact ⟨quote, h, .inl (.inr rfl)⟩
    · exact ⟨lineFeed, h, .inr rfl⟩

theorem cell_of_not_needsQuotes {text : Text} (h : needsQuotes text = false) : cell text = text := by
  simp [cell, h]

theorem not_readable_iff {text : Text} : ¬ Readable text ↔ carriageReturn ∈ text ∧ needsQuotes text = false := by
  rw [Readable, ← needsQuotes_iff, Classical.not_imp, Bool.not_eq_true]

namespace Reader

theorem isOrdinary_of_mem {text : Text} (h : needsQuotes text = false) {p : CodePoint} (hp : p ∈ text)
    (hreturn : p ≠ carriageReturn) : IsOrdinary p := by
  have hnone : ¬ (comma ∈ text ∨ quote ∈ text ∨ lineFeed ∈ text) := by simp [← needsQuotes_iff, h]
  refine ⟨fun he => hnone (.inl (he ▸ hp)), fun he => hnone (.inr (.inl (he ▸ hp))), ?_⟩
  have hfeed : p ≠ lineFeed := fun he => hnone (.inr (.inr (he ▸ hp)))
  simp [endsRecord, hreturn, hfeed]

/-- A readable cell is read up to its end. -/
theorem run_cell {text : Text} (h : Readable text) (cells : List Text) (records : List (List Text)) :
    ∃ mode, AtCellEnd mode ∧ run ⟨.cellStart, [], cells, records⟩ (cell text) = ⟨mode, text, cells, records⟩ := by
  cases hq : needsQuotes text with
  | false =>
    have hreturn : carriageReturn ∉ text := fun hmem => not_readable_iff.2 ⟨hmem, hq⟩ h
    rw [cell_of_not_needsQuotes hq]
    exact run_ordinary (fun p hp => isOrdinary_of_mem hq hp fun he => hreturn (he ▸ hp)) cells records
  | true =>
    have hopen : step ⟨.cellStart, [], cells, records⟩ quote = ⟨.quoted, [], cells, records⟩ := by
      simp [step, stepCellStart]
    refine ⟨.quoteSeen, .inr (.inr rfl), ?_⟩
    simp only [cell, hq, if_true, List.cons_append]
    rw [run_cons, hopen, run_append, run_doubled]
    rfl

/-- In another cell the record ends at the first carriage return. -/
theorem run_unreadable {text : Text} (h : ¬ Readable text) (cells : List Text) (records : List (List Text))
    (rest : Text) :
    ∃ start, start ≠ text ∧
      records ++ [cells ++ [start]] <+: (run ⟨.cellStart, [], cells, records⟩ (cell text ++ rest)).records := by
  obtain ⟨hmem, hq⟩ := not_readable_iff.1 h
  obtain ⟨start, after, htext, hstart⟩ := List.eq_append_cons_of_mem hmem
  have hordinary : ∀ p ∈ start, IsOrdinary p := fun p hp =>
    isOrdinary_of_mem hq (by simp [htext, hp]) fun he => hstart (he ▸ hp)
  obtain ⟨mode, hmode, hrun⟩ := run_ordinary hordinary cells records
  refine ⟨start, by simp [htext], ?_⟩
  rw [cell_of_not_needsQuotes hq, htext, List.append_assoc, run_append, hrun, List.cons_append, run_cons,
    step_carriageReturn hmode]
  exact records_run ⟨.afterReturn, [], [], records ++ [cells ++ [start]]⟩ _

end Reader

/-! ## One line -/

theorem line_singleton (text : Text) : line [text] = cell text ++ [lineFeed] := rfl

theorem line_cons_cons (first second : Text) (others : List Text) :
    line (first :: second :: others) = cell first ++ comma :: line (second :: others) := by
  simp [line, Text.joinWith]

/-- A line of several cells starts with a line end only if its first cell is not
readable. -/
theorem exists_line_eq_cons (first second : Text) (others : List Text) :
    ∃ p rest, line (first :: second :: others) = p :: rest ∧ (endsRecord p = true → ¬ Readable first) := by
  rw [line_cons_cons]
  cases hcell : cell first with
  | nil => exact ⟨comma, _, rfl, fun h => absurd h (by decide)⟩
  | cons p rest =>
    refine ⟨p, _, rfl, fun hend => not_readable_iff.2 ?_⟩
    cases hq : needsQuotes first with
    | true =>
      simp only [cell, hq, if_true, List.cons_append, List.cons.injEq] at hcell
      exact absurd hend (hcell.1 ▸ by decide)
    | false =>
      rw [cell_of_not_needsQuotes hq] at hcell
      have hmem : p ∈ first := by simp [hcell]
      refine ⟨Classical.byContradiction fun hreturn => ?_, rfl⟩
      obtain ⟨-, -, hordinary⟩ := Reader.isOrdinary_of_mem hq hmem fun he => hreturn (he ▸ hmem)
      rw [hend] at hordinary
      cases hordinary

namespace Reader

variable {records : List (List Text)}

theorem run_cells {first : Text} {others : List Text} (h : ∀ text ∈ first :: others, Readable text)
    (cells : List Text) :
    run ⟨.cellStart, [], cells, records⟩ (line (first :: others)) =
      ⟨.recordStart, [], [], records ++ [cells ++ first :: others]⟩ := by
  induction others generalizing first cells with
  | nil =>
    obtain ⟨mode, hmode, hrun⟩ := run_cell (h first (by simp)) cells records
    rw [line_singleton, run_append, hrun, run_cons, step_lineFeed hmode]
    rfl
  | cons second others ih =>
    obtain ⟨mode, hmode, hrun⟩ := run_cell (h first (by simp)) cells records
    rw [line_cons_cons, run_append, hrun, run_cons, step_comma hmode, ih fun text ht => h text (by simp [ht])]
    simp

theorem exists_wrong_cells {first : Text} {others : List Text} (h : ∃ text ∈ first :: others, ¬ Readable text)
    (cells : List Text) (records : List (List Text)) (rest : Text) :
    ∃ record, record ≠ cells ++ first :: others ∧
      records ++ [record] <+: (run ⟨.cellStart, [], cells, records⟩ (line (first :: others) ++ rest)).records := by
  induction others generalizing first cells with
  | nil =>
    obtain ⟨text, hmem, htext⟩ := h
    obtain rfl := List.mem_singleton.1 hmem
    obtain ⟨start, hne, hstart⟩ := run_unreadable htext cells records (lineFeed :: rest)
    refine ⟨cells ++ [start], by simpa using hne, ?_⟩
    simpa [line_singleton] using hstart
  | cons second others ih =>
    rw [line_cons_cons, List.append_assoc, List.cons_append]
    by_cases hfirst : Readable first
    · obtain ⟨mode, hmode, hrun⟩ := run_cell hfirst cells records
      have hother : ∃ text ∈ second :: others, ¬ Readable text := by
        obtain ⟨text, hmem, htext⟩ := h
        exact ⟨text, (List.mem_cons.1 hmem).resolve_left fun he => htext (he ▸ hfirst), htext⟩
      obtain ⟨record, hne, hrecord⟩ := ih hother (cells ++ [first])
      refine ⟨record, by simpa using hne, ?_⟩
      rwa [run_append, hrun, run_cons, step_comma hmode]
    · obtain ⟨start, hne, hstart⟩ := run_unreadable hfirst cells records _
      exact ⟨cells ++ [start], by simp [hne], hstart⟩

theorem run_recordStart {p : CodePoint} (h : endsRecord p = false) (text : Text) :
    run ⟨.recordStart, [], [], records⟩ (p :: text) = run ⟨.cellStart, [], [], records⟩ (p :: text) := by
  simp [run_cons, step, stepRecordStart, stepCellStart, stepPlain, h, addChar, endCell]

variable {first second : Text} {others : List Text}

/-- A line of readable cells reads back. -/
theorem run_line (h : ∀ text ∈ first :: second :: others, Readable text) :
    run ⟨.recordStart, [], [], records⟩ (line (first :: second :: others)) =
      ⟨.recordStart, [], [], records ++ [first :: second :: others]⟩ := by
  obtain ⟨p, rest, hline, hend⟩ := exists_line_eq_cons first second others
  have hp : endsRecord p = false := Bool.eq_false_iff.2 fun he => hend he (h first (by simp))
  rw [hline, run_recordStart hp, ← hline, run_cells h]
  rfl

/-- Any other line reads as another record. -/
theorem exists_wrong_record (h : ∃ text ∈ first :: second :: others, ¬ Readable text)
    (records : List (List Text)) (rest : Text) :
    ∃ record, record ≠ first :: second :: others ∧ records ++ [record] <+:
      (run ⟨.recordStart, [], [], records⟩ (line (first :: second :: others) ++ rest)).records := by
  obtain ⟨p, text, hline, -⟩ := exists_line_eq_cons first second others
  cases hp : endsRecord p with
  | true =>
    refine ⟨[], by simp, ?_⟩
    have hstep : step ⟨.recordStart, [], [], records⟩ p = endRecord ⟨.recordStart, [], [], records⟩ p := by
      simp [step, stepRecordStart, hp]
    rw [hline, List.cons_append, run_cons, hstep]
    exact records_run (endRecord ⟨.recordStart, [], [], records⟩ p) _
  | false =>
    obtain ⟨record, hne, hrecord⟩ := exists_wrong_cells h [] records rest
    refine ⟨record, hne, ?_⟩
    rw [hline, List.cons_append] at hrecord ⊢
    rwa [run_recordStart hp]

end Reader

/-! ## The whole report -/

/-- Lines of several cells each read back exactly if all cells are readable. -/
theorem read_lines_iff {rows : List (List Text)}
    (hseveral : ∀ row ∈ rows, ∃ first second others, row = first :: second :: others)
    (records : List (List Text)) :
    (Reader.run ⟨.recordStart, [], [], records⟩ (rows.flatMap line)).result = records ++ rows ↔
      ∀ row ∈ rows, ∀ text ∈ row, Readable text := by
  induction rows generalizing records with
  | nil => simp [Reader.run, Reader.result]
  | cons row rows ih =>
    obtain ⟨first, second, others, rfl⟩ := hseveral row (by simp)
    have hrest := ih fun row hmem => hseveral row (List.mem_cons_of_mem _ hmem)
    rw [List.flatMap_cons, List.forall_mem_cons]
    by_cases hrow : ∀ text ∈ first :: second :: others, Readable text
    · rw [Reader.run_append, Reader.run_line hrow, and_iff_right hrow,
        ← hrest (records ++ [first :: second :: others]), List.append_assoc, List.singleton_append]
    · refine iff_of_false (fun hread => ?_) fun h => hrow h.1
      -- the record that is read in the place of the row stays
      have hwrong : ∃ text ∈ first :: second :: others, ¬ Readable text := by
        simpa only [Classical.not_forall, Classical.not_imp, exists_prop] using hrow
      obtain ⟨record, hne, hrecord⟩ := Reader.exists_wrong_record hwrong records (rows.flatMap line)
      have hresult := hrecord.trans (Reader.records_result _)
      rw [hread, List.prefix_append_right_inj, List.cons_prefix_cons] at hresult
      exact hne hresult.1

theorem mem_cell {text : Text} {p : CodePoint} (h : p ∈ cell text) : p = quote ∨ p ∈ text := by
  unfold cell at h
  split at h
  · simp only [List.cons_append, List.mem_cons, List.mem_append, List.mem_flatMap, List.not_mem_nil, or_false] at h
    rcases h with h | ⟨q, hq, h⟩ | h
    · exact .inl h
    · split at h
      · exact .inl (by simpa using h)
      · exact .inr (List.mem_singleton.1 h ▸ hq)
    · exact .inl h
  · exact .inr h

theorem isSurrogate_line {cells : List Text} (h : ∀ text ∈ cells, ∀ p ∈ text, p.isSurrogate = false) :
    ∀ p ∈ line cells, p.isSurrogate = false := by
  have hcell : ∀ text ∈ cells, ∀ p ∈ cell text, p.isSurrogate = false := by
    intro text htext p hp
    rcases mem_cell hp with rfl | hp
    · decide
    · exact h text htext p hp
  induction cells with
  | nil => decide
  | cons first others ih =>
    have hother := ih (fun text hmem => h text (by simp [hmem])) fun text hmem => hcell text (by simp [hmem])
    cases others with
    | nil =>
      rw [line_singleton, List.forall_mem_append]
      exact ⟨hcell first (by simp), by decide⟩
    | cons second others =>
      rw [line_cons_cons, List.forall_mem_append, List.forall_mem_cons]
      exact ⟨hcell first (by simp), by decide, hother⟩

theorem writeRows_eq {rows : List Row}
    (h : ∀ row ∈ rows, ∀ text ∈ row.cells, ∀ p ∈ text, p.isSurrogate = false) (written : Written) :
    ∃ s, Text.ofString s = (rows.map Row.cells).flatMap line ∧
      writeRows written rows =
        { written with text := written.text ++ s, count := written.count + rows.length } := by
  induction rows generalizing written with
  | nil => exact ⟨"", rfl, by simp [writeRows]⟩
  | cons row rows ih =>
    obtain ⟨s, hs, hline⟩ := Text.exists_encode (isSurrogate_line (h row (by simp)))
    obtain ⟨rest, hrest, hwritten⟩ := ih (fun row' hmem => h row' (by simp [hmem]))
      { written with text := written.text ++ s, count := written.count + 1 }
    refine ⟨s ++ rest, ?_, ?_⟩
    · rw [Text.ofString_append, hline, hrest, List.map_cons, List.flatMap_cons]
    · simp only [writeRows, hs, hwritten, String.append_assoc, List.length_cons]
      rw [Nat.add_assoc, Nat.add_comm 1]

/-- **The report reads back, but for lone carriage returns.** Rows without
surrogates are all written, and counted. What is written reads as the header and
the cells of the rows exactly if no cell has a carriage return that none of a
comma, a quote and a line feed puts in quotes. -/
theorem reads_back_iff {rows : List Row}
    (h : ∀ row ∈ rows, ∀ text ∈ row.cells, ∀ p ∈ text, p.isSurrogate = false) :
    (write rows).error = none ∧ (write rows).count = rows.length ∧
      Text.ofString (write rows).text = document rows ∧
      (read (.ofString (write rows).text) = header.map Text.ofString :: rows.map Row.cells ↔
        ∀ row ∈ rows, ∀ text ∈ row.cells,
          carriageReturn ∈ text → comma ∈ text ∨ quote ∈ text ∨ lineFeed ∈ text) := by
  obtain ⟨s, hs, hwritten⟩ := writeRows_eq h { text := (line (header.map Text.ofString)).shown }
  have htext : Text.ofString (write rows).text = document rows := by
    have hpoints : ∀ text ∈ header.map Text.ofString, ∀ p ∈ text, p.isSurrogate = false := by decide
    have hheader := Text.ofString_shown (isSurrogate_line hpoints)
    rw [write, hwritten, Text.ofString_append, hheader, hs, document, lines, List.flatten_cons, List.flatMap_map]
    rfl
  refine ⟨by rw [write, hwritten], by simp [write, hwritten], htext, ?_⟩
  have hdocument : document rows = (header.map Text.ofString :: rows.map Row.cells).flatMap line := by
    rw [List.flatMap_cons, List.flatMap_map]
    rfl
  rw [htext, hdocument]
  refine (read_lines_iff ?several []).trans ?cells
  case several =>
    rw [List.forall_mem_cons, List.forall_mem_map]
    exact ⟨⟨_, _, _, rfl⟩, fun row _ => ⟨_, _, _, rfl⟩⟩
  case cells =>
    have hheader : ∀ text ∈ header.map Text.ofString, Readable text := by decide
    rw [List.forall_mem_cons, and_iff_right hheader, List.forall_mem_map]
    rfl

namespace Breaks

/-- A row with a command text. -/
def row (text : String) : Row := ⟨.ofString "A.cs", 2, .ofString text, false, ""⟩

/-- A carriage return that stands in quotes for another reason reads back, and so
do quotes, an empty line in the text and empty cells. -/
theorem quoted_break_reads_back :
    (∀ r ∈ [row "a,\r\n\"b\"", row "\n\n"], ∀ text ∈ r.cells, ∀ p ∈ text, p.isSurrogate = false) ∧
    (write [row "a,\r\n\"b\"", row "\n\n"]).count = 2 ∧
    read (.ofString (write [row "a,\r\n\"b\"", row "\n\n"]).text) =
      [header.map Text.ofString, (row "a,\r\n\"b\"").cells, (row "\n\n").cells] := by
  have hpoints : ∀ r ∈ [row "a,\r\n\"b\"", row "\n\n"], ∀ text ∈ r.cells, ∀ p ∈ text,
      p.isSurrogate = false := by decide
  obtain ⟨-, hcount, -, hread⟩ := reads_back_iff hpoints
  exact ⟨hpoints, hcount, hread.2 (by decide)⟩

/-- A lone carriage return in a command text ends the record, and the rest of the
row reads as another. -/
theorem lone_break_splits_row :
    (write [row "a\rb"]).text = "File,LineNumber,CommandText,IsVariable,ErrorMsg\nA.cs,2,a\rb,False,\n" ∧
    read (.ofString (write [row "a\rb"]).text) =
      [header.map Text.ofString, ["A.cs", "2", "a"].map Text.ofString, ["b", "False", ""].map Text.ofString] := by
  decide +kernel

end Breaks

end Csv

end CommandTrace
