/-
Alternatives, joined and taken apart.

A name that was traced to several literals gives one record, with a mark between
the literals, and the report takes them apart again. Taking apart undoes joining
for whatever was joined (`Text.fields_joinWith`), so the rows of the record are
those of its literals, one literal after another (`rowsOf_joined`). A literal
without the mark is one alternative, which is left out only if it starts like a
pending reference or nothing of it is left after cleaning
(`rowsOf_of_not_mem`).
-/
import CommandTrace.Proofs.Aggregation
import CommandTrace.Proofs.CallSite
import CommandTrace.Proofs.Line

namespace CommandTrace

open Logged

namespace Text

/-- Taking apart what was joined gives the parts of each text in turn. -/
theorem fields_joinWith {sep : CodePoint} {ts : List Text} (h : ts ≠ []) :
    fields sep (joinWith sep ts) = ts.flatMap (fields sep) := by
  fun_induction joinWith sep ts with
  | case1 => exact absurd rfl h
  | case2 t => simp
  | case3 t u rest ih => rw [fields_append, ih (List.cons_ne_nil u rest), ← List.flatMap_cons]

end Text

namespace Report

variable (tokens : List Text)

/-! ## Rows of a record -/

theorem clean_nil : clean tokens [] = [] := by
  induction tokens with
  | nil => rfl
  | cons token tokens ih =>
    have hremove : Text.removeAll token [] = [] := by simp [Text.removeAll]
    rw [clean, List.foldl_cons, hremove]
    exact ih

/-- The record of a literal, or of several. -/
def literalRecord (file : Path) (line : Int) (text : Text) : Record := { file, line, text }

variable (file : Path) (line : Int)

/-- The rows of a text that is one alternative. -/
def textRows (text : Text) : List Row :=
  if (Text.ofString pendingMark).isPrefixOf text ∨ clean tokens text = [] then []
  else [⟨file, line, clean tokens text, false, ""⟩]

theorem rowsOf_eq (text : Text) :
    rowsOf tokens (literalRecord file line text) =
      (fields alternativeMark text).flatMap (textRows tokens file line) := by
  have hrows : rowsOf tokens (literalRecord file line text) =
      ((((fields alternativeMark text).filter fun text => !(Text.ofString pendingMark).isPrefixOf text).map
        (clean tokens)).filter (· ≠ [])).map fun text => ⟨file, line, text, false, ""⟩ := rfl
  rw [hrows]
  induction fields alternativeMark text with
  | nil => rfl
  | cons part parts ih =>
    rw [List.flatMap_cons, ← ih, textRows]
    by_cases hpending : (Text.ofString pendingMark).isPrefixOf part = true
    · simp [hpending]
    · by_cases hclean : clean tokens part = [] <;> simp [hpending, hclean]

/-- A literal without the mark is one alternative. -/
theorem rowsOf_of_not_mem {text : Text} (h : alternativeMark ∉ text) :
    rowsOf tokens (literalRecord file line text) = textRows tokens file line text := by
  rw [rowsOf_eq, fields_of_not_mem h, List.flatMap_singleton]

/-- The rows of joined literals are those of each literal in turn. -/
theorem rowsOf_joined (values : List Text) :
    rowsOf tokens (literalRecord file line (Text.joinWith alternativeMark values)) =
      values.flatMap fun value => rowsOf tokens (literalRecord file line value) := by
  by_cases hvalues : values = []
  · have hnil : rowsOf tokens (literalRecord file line []) = textRows tokens file line [] :=
      rowsOf_of_not_mem tokens file line List.not_mem_nil
    rw [hvalues, Text.joinWith, hnil]
    simp [textRows, clean_nil]
  · simp only [rowsOf_eq, Text.fields_joinWith hvalues, List.flatMap_assoc]

theorem rows_literalRecord (text : Text) :
    rows tokens [literalRecord file line text] = distinct (rowsOf tokens (literalRecord file line text)) := by
  have hone : [literalRecord file line text].filter (!·.isPending) = [literalRecord file line text] := rfl
  rw [rows_eq, allRows, hone, List.flatMap_singleton]

end Report

namespace SyntaxTree

variable {t : SyntaxTree}

/-! ## Records of an argument -/

/-- A name that was traced to literals gives one record with all of them; the
others are pending or variable. -/
theorem literal_nameRecords {name : String} {line start : Nat} {resolution : Resolution}
    (h : (t.trace name start).outcome = .ok resolution) (hvalues : resolution.values ≠ []) :
    ∃ records, (t.nameRecords name line start).outcome = .ok records ∧
      records.filter (fun r => !r.isPending && !r.isVariable) =
        [Report.literalRecord t.path line resolution.text] := by
  refine ⟨_, outcome_nameRecords h line, ?_⟩
  have hempty : resolution.isEmpty = false := by simp [Resolution.isEmpty, Resolution.isResolved, hvalues]
  have hsome : resolution.values.isEmpty = false := by simpa using hvalues
  simp only [tracedRecords, hempty, hsome, Bool.false_eq_true, if_false, List.filter_append, List.filter_map]
  simp [Report.literalRecord, Record.isPending, Function.comp_def]

theorem literal_argumentRecords {expression : Nat} {value : Text} (hk : t.kind expression = .literal)
    (hvalue : t.literalValue expression = .ok value) (hne : value ≠ []) (options : ScanOptions) (keepText : Bool)
    (line start : Nat) :
    (t.argumentRecords options keepText expression line start).outcome =
      .ok [Report.literalRecord t.path line value] := by
  rw [argumentRecords, hk]
  simp only
  rw [outcome_bind_of_ok (a := value) hvalue, if_neg hne]
  rfl

end SyntaxTree

namespace Report

/-- **Joined alternatives are reported one by one.** A name that was traced to
literals gives, besides pending and variable records, one record with all of
them joined. Its rows are those of each literal in turn, without repeats. A
literal without the mark that joins them has one row, with the cleaned text, or
none if it starts like a pending reference or is empty after cleaning. So a
literal that stands as an argument is reported whole, unless it is one of
these. -/
theorem alternatives_reported_in_turn (tokens : List Text) (t : SyntaxTree) (line : Nat) :
    (∀ name start resolution, (t.trace name start).outcome = .ok resolution → resolution.values ≠ [] →
      ∃ records, (t.nameRecords name line start).outcome = .ok records ∧
        records.filter (fun r => !r.isPending && !r.isVariable) = [literalRecord t.path line resolution.text]) ∧
    (∀ resolution : Resolution, rows tokens [literalRecord t.path line resolution.text] =
      distinct (resolution.values.flatMap fun value => rowsOf tokens (literalRecord t.path line value))) ∧
    (∀ value, alternativeMark ∉ value →
      rowsOf tokens (literalRecord t.path line value) =
        if (Text.ofString pendingMark).isPrefixOf value ∨ clean tokens value = [] then []
        else [⟨t.path, line, clean tokens value, false, ""⟩]) ∧
    ∀ options keepText expression start value, t.kind expression = .literal →
      t.literalValue expression = .ok value → alternativeMark ∉ value →
      ¬ (Text.ofString pendingMark).isPrefixOf value → clean tokens value ≠ [] →
      ∃ record, (t.argumentRecords options keepText expression line start).outcome = .ok [record] ∧
        rows tokens [record] = [⟨t.path, line, clean tokens value, false, ""⟩] := by
  refine ⟨fun name start resolution h hvalues => SyntaxTree.literal_nameRecords h hvalues, fun resolution => ?_,
    fun value hmark => rowsOf_of_not_mem tokens t.path line hmark, ?_⟩
  · rw [rows_literalRecord, Resolution.text, rowsOf_joined]
  · intro options keepText expression start value hk hvalue hmark hpending hclean
    have hne : value ≠ [] := fun h => hclean (h ▸ clean_nil tokens)
    have hrow : textRows tokens t.path line value = [⟨t.path, line, clean tokens value, false, ""⟩] :=
      if_neg (not_or.2 ⟨hpending, hclean⟩)
    refine ⟨_, SyntaxTree.literal_argumentRecords hk hvalue hne options keepText line start, ?_⟩
    rw [rows_literalRecord, rowsOf_of_not_mem tokens t.path line hmark, hrow]
    rfl

namespace Literals

/-- A block that gives literals of the source to `a`, one after another. -/
def tree (literals : List (Nat × Nat)) : SyntaxTree :=
  let body := literals.map fun (start, stop) =>
    ParseTree.node ⟨"assignment_expression", none, 0, 28, true⟩
      [.node ⟨"identifier", some "left", 0, 1, true⟩ [], .node ⟨"string_literal", some "right", start, stop, true⟩ []]
  .ofParseTree (.ofString "A.cs") "a\"dbo.x\"\"methodCalls:m\"\"a|b\"".toUTF8.data
    (.node ⟨"block", none, 0, 28, true⟩ body) false

/-- `a = "dbo.x"; a = "methodCalls:m";` -/
def marked : SyntaxTree := tree [(1, 8), (8, 23)]

/-- Of the two literals that `a` is traced to, one has a row; as an argument it
has the same. -/
theorem unmarked_literal_reported :
    (marked.trace "a" 0).outcome = .ok { values := [.ofString "dbo.x", .ofString "methodCalls:m"] } ∧
    (∃ records, (marked.nameRecords "a" 1 0).outcome = .ok records ∧
      records.filter (fun r => !r.isPending && !r.isVariable) =
        [literalRecord marked.path 1 (.ofString "dbo.x|methodCalls:m")]) ∧
    rows defaultTokens [literalRecord marked.path 1 (.ofString "dbo.x|methodCalls:m")] =
      [⟨marked.path, 1, .ofString "x", false, ""⟩] ∧
    ∃ record, (marked.argumentRecords {} false 3 1 0).outcome = .ok [record] ∧
      rows defaultTokens [record] = [⟨marked.path, 1, .ofString "x", false, ""⟩] := by
  obtain ⟨hname, hrows, hvalue, hliteral⟩ := alternatives_reported_in_turn defaultTokens marked 1
  have htrace : (marked.trace "a" 0).outcome =
      .ok { values := [.ofString "dbo.x", .ofString "methodCalls:m"] } := by decide +kernel
  have hargument : (liftM (marked.literalValue 3) : Logged Text).outcome = .ok (.ofString "dbo.x") := by
    decide +kernel
  have hclean : clean defaultTokens (.ofString "dbo.x") = .ofString "x" := by decide +kernel
  refine ⟨htrace, hname "a" 0 _ htrace (by decide), ?_, ?_⟩
  · refine (hrows { values := [.ofString "dbo.x", .ofString "methodCalls:m"] }).trans ?_
    simp only [List.flatMap_cons, List.flatMap_nil]
    rw [hvalue (.ofString "dbo.x") (by decide), hvalue (.ofString "methodCalls:m") (by decide)]
    decide +kernel
  · have hreported := hliteral {} false 3 0 (.ofString "dbo.x") (by decide +kernel) hargument (by decide)
      (by decide) (by rw [hclean]; decide)
    rwa [hclean] at hreported

/-- As arguments, a literal that starts like a pending reference is not
reported, and one with the mark in it is reported as two. -/
theorem marked_literals_not_whole :
    (∃ record, ((tree [(8, 23)]).argumentRecords {} false 3 1 0).outcome = .ok [record] ∧
      record.text = .ofString "methodCalls:m" ∧ clean defaultTokens record.text ≠ [] ∧
      rows defaultTokens [record] = []) ∧
    ∃ record, ((tree [(23, 28)]).argumentRecords {} false 3 1 0).outcome = .ok [record] ∧
      record.text = .ofString "a|b" ∧
      (rows defaultTokens [record]).map Row.text = [.ofString "a", .ofString "b"] :=
  ⟨⟨literalRecord (.ofString "A.cs") 1 (.ofString "methodCalls:m"), by decide +kernel⟩,
    literalRecord (.ofString "A.cs") 1 (.ofString "a|b"), by decide +kernel⟩

end Literals

end Report

end CommandTrace
