/-
How far a failure reaches.

A file that cannot be loaded or scanned costs a scan pass the records of that
file only. It leaves one error record (`filter_isError_records`), and the other
records are those of the pass without such files (`filter_not_isError_records`).
A scan reports no errors of its own (`error_of_scan`), so the two are told apart
by the records alone.

The look-up pass goes into a file only as long as a record is open (`LooksInto`),
and then it needs the file to be unreadable or all its constants to be sound:
`lookupFrom_succeeds_iff`. So one bad literal that nobody asked for stops the
whole analysis, as in `bad_literal_stops_analysis`, and nothing else does.
-/
import CommandTrace.Proofs.Lookup
import CommandTrace.Proofs.Propagation

namespace CommandTrace

open Logged

namespace SyntaxTree

variable {t : SyntaxTree} {options : ScanOptions}

/-! ## Records of a scan -/

/-- A scan itself reports no error. -/
theorem error_of_scan {m : RuleMap} {record : Record} (h : (t.scan options m).Contains record) :
    record.isError = false := by
  obtain ⟨keepText, expression, line, start, -, h⟩ := exists_argument_of_scan h
  cases recordOf_of_argumentRecords h <;> rfl

end SyntaxTree

namespace Pass

variable {load : Loader}

/-! ## Scan passes -/

/-- Why a file cannot be loaded or scanned. -/
def fault? (load : Loader) (options : ScanOptions) (m : RuleMap) (path : Path) : Option Fault :=
  match (load path >>= fun t => t.scan options m).outcome with
  | .ok _ => none
  | .error fault => some fault

theorem isError_errorRecord (path : Path) (fault : Fault) : (errorRecord path fault).isError = true := by
  simp [errorRecord, Record.isError, String.append_eq_empty_iff]

variable {options : ScanOptions} {m : RuleMap} {path : Path}

theorem records_of_fault {fault : Fault} (h : fault? load options m path = some fault) :
    (scanned load options m path).records = [errorRecord path fault] := by
  rw [fault?] at h
  rw [scanned]
  cases hout : (load path >>= fun t => t.scan options m).outcome with
  | ok rs =>
    rw [hout] at h
    cases h
  | error _ =>
    rw [hout] at h
    cases h
    rfl

theorem isError_of_no_fault (h : fault? load options m path = none) :
    ∀ record ∈ (scanned load options m path).records, record.isError = false := by
  rw [fault?] at h
  rw [scanned]
  cases hout : (load path >>= fun t => t.scan options m).outcome with
  | ok rs =>
    intro record hrecord
    obtain ⟨t, -, hscan⟩ := bind_eq_ok.1 hout
    exact SyntaxTree.error_of_scan ⟨rs, hscan, hrecord⟩
  | error _ =>
    rw [hout] at h
    cases h

/-- The error records of a pass are those of the failing files. -/
theorem filter_isError_records (files : List Path) :
    (records load options files m).filter Record.isError =
      files.filterMap fun path => (fault? load options m path).map (errorRecord path) := by
  induction files with
  | nil => rfl
  | cons path files ih =>
    rw [records, List.flatMap_cons, List.filter_append, ← records, ih, List.filterMap_cons]
    cases hfault : fault? load options m path with
    | some fault => simp [records_of_fault hfault, isError_errorRecord]
    | none =>
      have hnone : (scanned load options m path).records.filter Record.isError = [] :=
        List.filter_eq_nil_iff.2 fun record h => by simp [isError_of_no_fault hfault record h]
      simp [hnone]

/-- The other records of a pass are those of a pass without the failing
files. -/
theorem filter_not_isError_records (files : List Path) :
    (records load options files m).filter (!·.isError) =
      records load options (files.filter fun path => (fault? load options m path).isNone) m := by
  induction files with
  | nil => rfl
  | cons path files ih =>
    rw [records, List.flatMap_cons, List.filter_append, ← records, ih, List.filter_cons]
    cases hfault : fault? load options m path with
    | some fault => simp [records_of_fault hfault, isError_errorRecord]
    | none =>
      have hall : (scanned load options m path).records.filter (!·.isError) = (scanned load options m path).records :=
        List.filter_eq_self.2 fun record h => by simp [isError_of_no_fault hfault record h]
      rw [hall]
      rfl

/-! ## The look-up pass -/

/-- The look-up pass goes into the file: a record is still open after the files
before it. -/
def LooksInto (load : Loader) (records : List Record) (files : List Path) (path : Path) : Prop :=
  ∃ before after, files = before ++ path :: after ∧ ∃ r ∈ records, (lookedUp load before r).isOpen = true

theorem lookedUp_nil (r : Record) : lookedUp load [] r = r := lookedUp_of_none (by simp [valueFor, valueOf])

/-- A look-up opens no record. -/
theorem isOpen_of_lookedUp {files : List Path} {r : Record} (h : (lookedUp load files r).isOpen = true) :
    r.isOpen = true := by
  by_contra hr
  rw [lookedUp_of_none (valueFor_of_not_isOpen hr)] at h
  exact hr h

theorem LooksInto.any_isOpen {records : List Record} {files : List Path} (h : LooksInto load records files path) :
    records.any Record.isOpen = true := by
  obtain ⟨before, after, -, r, hr, hopen⟩ := h
  exact List.any_eq_true.2 ⟨r, hr, isOpen_of_lookedUp hopen⟩

theorem looksInto_first {first : Path} {rest : List Path} {records : List Record}
    (hopen : records.any Record.isOpen = true) : LooksInto load records (first :: rest) first := by
  obtain ⟨r, hr, hropen⟩ := List.any_eq_true.1 hopen
  exact ⟨[], rest, rfl, r, hr, by rwa [lookedUp_nil]⟩

/-- The pass goes into the first file, if a record is open, and with what that
leaves open into the others. -/
theorem looksInto_cons {first : Path} {rest : List Path} {records records' : List Record}
    (hopen : records.any Record.isOpen = true)
    (hstep : ∀ files, records'.map (lookedUp load files) = records.map (lookedUp load (first :: files))) :
    LooksInto load records (first :: rest) path ↔ path = first ∨ LooksInto load records' rest path := by
  have hlooked : ∀ files, (∃ r ∈ records', (lookedUp load files r).isOpen = true) ↔
      ∃ r ∈ records, (lookedUp load (first :: files) r).isOpen = true := by
    intro files
    have h := congrArg (fun rs => ∃ r ∈ rs, r.isOpen = true) (hstep files)
    simpa using h
  constructor
  · rintro ⟨before, after, hfiles, hr⟩
    cases before with
    | nil => exact .inl (List.cons.inj hfiles).1.symm
    | cons b before =>
      obtain ⟨rfl, hrest⟩ := List.cons.inj hfiles
      exact .inr ⟨before, after, hrest, (hlooked before).2 hr⟩
  · rintro (rfl | ⟨before, after, rfl, hr⟩)
    · exact looksInto_first hopen
    · exact ⟨first :: before, after, rfl, (hlooked before).1 hr⟩

/-- A look-up that returns found the first file usable. -/
theorem usable_of_lookupFrom {records : List Record} {stats : PassStats} {rest : List Path}
    (hopen : records.any Record.isOpen = true) (h : (lookupFrom load records stats (path :: rest)).Succeeds) :
    Usable load path := by
  rw [lookupFrom, if_pos hopen, bind_succeeds] at h
  obtain ⟨-, -, h⟩ := h
  obtain ⟨result, hresult, h⟩ := bind_succeeds.1 h
  rw [outcome_attempt, Except.ok.injEq] at hresult
  split at h
  · exact .inl ⟨_, hresult⟩
  · obtain ⟨a, ha⟩ := h
    cases ha
  · obtain ⟨table, htable, -⟩ := bind_succeeds.1 h
    exact .inr ⟨_, table, hresult, htable⟩

/-- **When the look-up pass returns.** Each file it goes into has to be
unreadable, or all its constants have to be sound. -/
theorem lookupFrom_succeeds_iff {records : List Record} {stats : PassStats} {files : List Path} :
    (lookupFrom load records stats files).Succeeds ↔ ∀ path, LooksInto load records files path → Usable load path := by
  induction files generalizing records stats with
  | nil =>
    refine iff_of_true (pure_succeeds _) ?_
    rintro path ⟨before, after, hfiles, -⟩
    simp at hfiles
  | cons first rest ih =>
    by_cases hopen : records.any Record.isOpen = true
    case neg =>
      refine iff_of_true ?_ fun path h => absurd h.any_isOpen hopen
      rw [lookupFrom, if_neg hopen]
      exact pure_succeeds _
    -- both sides need the first file to be usable, and then speak of the others
    by_cases hfirst : Usable load first
    case neg =>
      refine iff_of_false (fun h => hfirst (usable_of_lookupFrom hopen h)) fun h => ?_
      exact hfirst (h first (looksInto_first hopen))
    rcases hfirst with ⟨error, herror⟩ | ⟨t, table, hload, htable⟩
    · have hstep : ∀ files, records.map (lookedUp load files) = records.map (lookedUp load (first :: files)) :=
        fun files => List.map_congr_left fun r _ => (lookedUp_cons_of_error files herror r).symm
      rw [Succeeds, outcome_lookupFrom_of_unreadable rest hopen stats herror, ← Succeeds, ih]
      simp only [looksInto_cons hopen hstep, forall_eq_or_imp]
      exact (and_iff_right (.inl ⟨error, herror⟩)).symm
    · have hstep := fun files => map_lookedUp_fillIn files hload htable records
      rw [Succeeds, outcome_lookupFrom_of_readable rest hopen stats hload htable, ← Succeeds, ih]
      simp only [looksInto_cons hopen hstep, forall_eq_or_imp]
      exact (and_iff_right (.inr ⟨t, table, hload, htable⟩)).symm

theorem declarations_succeeds_iff {number : Int} {records : List Record} {files : List Path} :
    (declarations load number records files).Succeeds ↔
      ∀ path, LooksInto load records files path → Usable load path := by
  by_cases hopen : records.any Record.isOpen = true
  · rw [declarations, if_pos hopen, lookupFrom_succeeds_iff]
  · rw [declarations, if_neg hopen]
    exact iff_of_true (bind_succeeds.2 ⟨(), outcome_report _, pure_succeeds _⟩) fun path h => absurd h.any_isOpen hopen

end Pass

namespace Analysis

/-- **How far a failure reaches.** In every scan pass, each file that fails
gives one error record and nothing else, and the other records are those of the
pass with these files left out; so the scan passes always return. The whole
analysis returns exactly if each file that the look-up pass goes into is
unreadable or has sound constants only. -/
theorem failures_isolated_unless_looked_into (load : Loader) (options : Options) (rules : RuleMap)
    (targets corpus : List Path) :
    (∀ (number : Nat) (files : List Path) (m : RuleMap), ∃ records stats stats',
      (Pass.scan load options.scan number files m).outcome = .ok (records, stats) ∧
      (records.filter Record.isError =
        files.filterMap fun path => (Pass.fault? load options.scan m path).map (Pass.errorRecord path)) ∧
      (Pass.scan load options.scan number
          (files.filter fun path => (Pass.fault? load options.scan m path).isNone) m).outcome =
        .ok (records.filter (!·.isError), stats')) ∧
    ∃ scanned, (scanPasses load options rules targets corpus).outcome = .ok scanned ∧
      ((run load options rules targets corpus).Succeeds ↔
        ∀ path, Pass.LooksInto load scanned.records corpus path → Pass.Usable load path) := by
  constructor
  · intro number files m
    have hrest : (Pass.scan load options.scan number
        (files.filter fun path => (Pass.fault? load options.scan m path).isNone) m).outcome = .ok (_, _) :=
      Pass.outcome_scan number _ m
    rw [← Pass.filter_not_isError_records] at hrest
    exact ⟨_, _, _, Pass.outcome_scan number files m, Pass.filter_isError_records files, hrest⟩
  · refine ⟨_, scanPasses_outcome load options rules targets corpus, ?_⟩
    rw [← Pass.declarations_succeeds_iff, run, Succeeds,
      outcome_bind_of_ok (scanPasses_outcome load options rules targets corpus),
      outcome_bind_of_ok (outcome_report _), ← Succeeds, bind_succeeds]
    refine exists_congr fun result => and_iff_left ?_
    exact bind_succeeds.2 ⟨(), outcome_report _, pure_succeeds _⟩

namespace BadLiteral

/-- The call `X(a)`, where nothing says what `a` is. -/
def call : ParseTree :=
  .node ⟨"compilation_unit", none, 0, 4, true⟩
    [.node ⟨"invocation_expression", none, 0, 4, true⟩
      [.node ⟨"identifier", some "function", 0, 1, true⟩ [],
        .node ⟨"argument_list", some "arguments", 1, 4, true⟩
          [.node ⟨"argument", none, 2, 3, true⟩ [.node ⟨"identifier", none, 2, 3, true⟩ []]]]]

/-- The field `k` of a class, with a literal. -/
def constant : ParseTree :=
  .node ⟨"class_declaration", none, 0, 14, true⟩
    [.node ⟨"identifier", some "name", 0, 1, true⟩ [],
      .node ⟨"variable_declarator", none, 1, 14, true⟩
        [.node ⟨"identifier", some "name", 1, 2, true⟩ [], .node ⟨"=", none, 2, 2, false⟩ [],
          .node ⟨"string_literal", none, 2, 14, true⟩ []]]

/-- File `A` has the call, and `B` a literal with an escape past the last code
point. -/
def load : Loader := fun path =>
  if path = .ofString "A" then pure (.ofParseTree path "X(a)".toUTF8.data call false)
  else pure (.ofParseTree path "Ck\"\\U00110000\"".toUTF8.data constant false)

def rules : RuleMap := .ofList [{ key := "X", methodName := "X", index := 0 }]

/-- All files can be read and scanned, but the literal, which no call asks for,
keeps the analysis from returning. -/
theorem bad_literal_stops_analysis :
    (∀ path ∈ [Path.ofString "A", .ofString "B"], Pass.fault? load {} rules path = none) ∧
    ¬ (run load {} rules [.ofString "A"] [.ofString "A", .ofString "B"]).Succeeds := by
  decide +kernel

end BadLiteral

end Analysis

end CommandTrace
