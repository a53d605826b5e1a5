/-
The rows of a report.

A report is made record by record: a pending record is dropped, one that was
taken up before is passed over, and of the others' rows those are added that are
not yet there. Passing a record over saves work and nothing else, since all its
rows are there already (`Draft.IsOf.add`). So a report has the rows of all records
that are not pending, each row where it occurs first (`rows_eq`), and its laws are
those of lists without repeats.
-/
import CommandTrace.Proofs.Distinct
import CommandTrace.Report

namespace CommandTrace.Report

variable {tokens : List Text}

/-! ## Making a report -/

/-- The rows of the records, those of pending ones apart, with all repeats. -/
def allRows (tokens : List Text) (records : List Record) : List Row :=
  (records.filter (!·.isPending)).flatMap (rowsOf tokens)

theorem allRows_append (records records' : List Record) :
    allRows tokens (records ++ records') = allRows tokens records ++ allRows tokens records' := by
  rw [allRows, List.filter_append, List.flatMap_append, allRows, allRows]

theorem allRows_of_pending {r : Record} (h : r.isPending = true) : allRows tokens [r] = [] := by
  simp [allRows, h]

theorem allRows_of_not_pending {r : Record} (h : r.isPending = false) : allRows tokens [r] = rowsOf tokens r := by
  simp [allRows, h]

theorem mem_allRows {records : List Record} {row : Row} :
    row ∈ allRows tokens records ↔ ∃ r ∈ records, r.isPending = false ∧ row ∈ rowsOf tokens r := by
  simp [allRows, List.mem_flatMap, and_assoc]

/-- What a draft holds when the records have been gone through. -/
structure Draft.IsOf (tokens : List Text) (records : List Record) (d : Draft) : Prop where
  mem_taken : ∀ r, r ∈ d.taken ↔ r ∈ records ∧ r.isPending = false
  rows_eq : d.rows = distinct (allRows tokens records)
  dropped_eq : d.dropped = records.countP Record.isPending

theorem Draft.IsOf.add {records : List Record} {d : Draft} (h : d.IsOf tokens records) (r : Record) :
    (d.add tokens r).IsOf tokens (records ++ [r]) := by
  have hmem : ∀ r', r' ∈ records ++ [r] ∧ r'.isPending = false ↔ r' ∈ d.taken ∨ r' = r ∧ r.isPending = false := by
    intro r'
    rw [h.mem_taken, List.mem_append, List.mem_singleton]
    grind
  have hrows : distinct (allRows tokens (records ++ [r])) = union d.rows (allRows tokens [r]) := by
    rw [allRows_append, distinct_append, h.rows_eq]
  have hdropped : (records ++ [r]).countP Record.isPending = d.dropped + [r].countP Record.isPending := by
    rw [List.countP_append, h.dropped_eq]
  rw [Draft.add]
  split
  case isTrue hpending =>
    refine ⟨fun r' => ?_, ?_, ?_⟩
    · rw [hmem]
      simp [hpending]
    · rw [hrows, allRows_of_pending hpending, union_nil]
    · simp [hdropped, hpending]
  case isFalse hpending =>
    have hpending : r.isPending = false := Bool.eq_false_iff.2 hpending
    have hsame : d.dropped = (records ++ [r]).countP Record.isPending := by simp [hdropped, hpending]
    rw [allRows_of_not_pending hpending] at hrows
    split
    case isTrue htaken =>
      refine ⟨fun r' => ?_, ?_, hsame⟩
      · have hold : r' = r → r' ∈ d.taken := fun he => he ▸ htaken
        rw [hmem]
        simpa [hpending] using hold
      · -- each row of a record that was taken up is there
        have hold : ∀ row ∈ rowsOf tokens r, row ∈ d.rows := by
          intro row hrow
          rw [h.rows_eq, mem_distinct, mem_allRows]
          exact ⟨r, ((h.mem_taken r).1 htaken).1, hpending, hrow⟩
        rw [hrows, union_of_subset hold]
    case isFalse =>
      refine ⟨fun r' => ?_, hrows.symm, hsame⟩
      rw [hmem]
      simp [hpending, or_comm]

theorem isOf_draft (records : List Record) : (draft tokens records).IsOf tokens records := by
  induction records using List.reverseRecOn with
  | nil => exact ⟨by simp [draft], rfl, rfl⟩
  | append_singleton records r ih =>
    rw [draft, List.foldl_append]
    exact ih.add r

/-- The report has all rows, each where it occurs first. -/
theorem rows_eq (records : List Record) : rows tokens records = distinct (allRows tokens records) :=
  (isOf_draft records).rows_eq

/-- What is logged: how many rows there are, and how many pending records. -/
theorem event_eq (records : List Record) :
    event tokens records = .recordsAggregated (rows tokens records).length (records.countP Record.isPending) := by
  rw [event, (isOf_draft records).dropped_eq, rows]

/-! ## Laws -/

theorem mem_rows {records : List Record} {row : Row} :
    row ∈ rows tokens records ↔ ∃ r ∈ records, r.isPending = false ∧ row ∈ rowsOf tokens r := by
  rw [rows_eq, mem_distinct, mem_allRows]

theorem rows_append (records records' : List Record) :
    rows tokens (records ++ records') =
      rows tokens records ++ (rows tokens records').filter (· ∉ rows tokens records) := by
  rw [rows_eq, allRows_append, distinct_append, union_eq_append, rows_eq, rows_eq]

/-- Records that have been seen before add nothing. -/
theorem rows_append_of_subset {records again : List Record} (h : again ⊆ records) :
    rows tokens (records ++ again) = rows tokens records := by
  have hnone : (rows tokens again).filter (· ∉ rows tokens records) = [] := by
    rw [List.filter_eq_nil_iff]
    intro row hrow
    obtain ⟨r, hr, hrest⟩ := mem_rows.1 hrow
    simpa using mem_rows.2 ⟨r, h hr, hrest⟩
  rw [rows_append, hnone, List.append_nil]

theorem rows_distinct (records : List Record) : rows tokens (distinct records) = rows tokens records := by
  induction records using List.reverseRecOn with
  | nil => rfl
  | append_singleton records r ih =>
    rw [distinct_concat]
    by_cases hr : r ∈ distinct records
    · have hagain : [r] ⊆ records := by simpa [mem_distinct] using hr
      rw [addNew_of_mem hr, ih, rows_append_of_subset hagain]
    · rw [addNew_of_not_mem hr, rows_append, ih, rows_append]

/-- A row has a command text exactly if it has no error. -/
theorem text_ne_nil_iff_of_mem {r : Record} {row : Row} (h : row ∈ rowsOf tokens r) :
    row.text ≠ [] ↔ row.error = "" := by
  rw [rowsOf] at h
  split at h
  case isTrue herror =>
    have herror : r.error ≠ "" := by simpa [Record.isError] using herror
    rw [List.mem_singleton.1 h]
    simp [herror]
  case isFalse herror =>
    have herror : r.error = "" := by simpa [Record.isError] using herror
    obtain ⟨text, htext, rfl⟩ := List.mem_map.1 h
    have hne : text ≠ [] := by simpa using (List.mem_filter.1 htext).2
    simp [hne, herror]

/-- **A report is its rows without repeats, in order.** The rows of records and
more records are those of the first, then those of the others that are not among
them. They are the rows of all records that are not pending, each where it occurs
first; so it makes no difference that a record is passed over when it comes again,
nor that it comes again. Each row has a command text or an error, not both. -/
theorem rows_in_order (tokens : List Text) (records : List Record) :
    (∀ records', rows tokens (records ++ records') =
      rows tokens records ++ (rows tokens records').filter (· ∉ rows tokens records)) ∧
    rows tokens records = ((records.filter (!·.isPending)).flatMap (rowsOf tokens)).eraseDups ∧
    rows tokens records.eraseDups = rows tokens records ∧
    (∀ again rest, again ⊆ records → rows tokens (records ++ again ++ rest) = rows tokens (records ++ rest)) ∧
    ∀ row ∈ rows tokens records, (row.text ≠ [] ↔ row.error = "") := by
  refine ⟨rows_append records, ?_, ?_, fun again rest h => ?_, fun row hrow => ?_⟩
  · rw [rows_eq, distinct_eq_eraseDups, allRows]
  · rw [← distinct_eq_eraseDups, rows_distinct]
  · rw [rows_append, rows_append_of_subset h, rows_append]
  · obtain ⟨r, -, -, hr⟩ := mem_rows.1 hrow
    exact text_ne_nil_iff_of_mem hr

namespace Repeated

/-- Three alternatives, two of which are the same when they are cleaned. -/
def found : Record := { file := .ofString "A.cs", line := 1, text := .ofString "dbo.x|[x]|y" }

def failed : Record := { file := .ofString "B.cs", line := 0, text := [], error := "unreadable" }

/-- A record that comes again between others, and the rows of both kinds. -/
theorem once_each :
    [found] ⊆ [found, failed] ∧
    rows defaultTokens [found, failed, found, { found with line := 2 }] =
      rows defaultTokens [found, failed, { found with line := 2 }] ∧
    (∀ row ∈ rows defaultTokens [found, failed], (row.text ≠ [] ↔ row.error = "")) ∧
    rows defaultTokens [found, failed] =
      [⟨found.file, 1, .ofString "x", false, ""⟩, ⟨found.file, 1, .ofString "y", false, ""⟩,
        ⟨failed.file, 0, [], false, "unreadable"⟩] := by
  obtain ⟨-, -, -, hagain, hrow⟩ := rows_in_order defaultTokens [found, failed]
  have hsubset : [found] ⊆ [found, failed] := by simp
  exact ⟨hsubset, hagain [found] [{ found with line := 2 }] hsubset, hrow, by decide +kernel⟩

end Repeated

end CommandTrace.Report
