/-
What a scan pass returns.

A scan pass never fails: `outcome_scan` gives its records and counts from what
each file gives (`scanned`). A pass with the rules of several references finds
what the passes with the rules of each of them find together, unless a scan
fails: `mem_records_ofReferences`. A file that cannot be loaded gives the same
record in all of them.
-/
import CommandTrace.Analysis.Pass
import CommandTrace.Proofs.CallSite

namespace CommandTrace.Pass

open Logged

variable {load : Loader} {options : ScanOptions}

/-- What a scan pass gets from one file. -/
def scanned (load : Loader) (options : ScanOptions) (m : RuleMap) (path : Path) : FileScan :=
  match (load path >>= fun t => t.scan options m).outcome with
  | .ok records => ⟨records, false⟩
  | .error fault => ⟨[errorRecord path fault], true⟩

/-- The records of a scan pass. -/
def records (load : Loader) (options : ScanOptions) (files : List Path) (m : RuleMap) : List Record :=
  files.flatMap fun path => (scanned load options m path).records

/-- The counts of a scan pass. -/
def stats (load : Loader) (options : ScanOptions) (number : Nat) (files : List Path) (m : RuleMap) : PassStats :=
  (summarize number (files.map (scanned load options m))).2

theorem stats_eq (number : Nat) (files : List Path) (m : RuleMap) :
    stats load options number files m =
      { number
        scanned := files.countP fun path => !(scanned load options m path).failed
        failed := files.countP fun path => (scanned load options m path).failed
        found := (records load options files m).length } := by
  simp [stats, summarize, records, List.countP_map, List.flatMap_map, Function.comp_def]

/-- No file that loads makes a scan with the rules of a map fail. -/
def Scannable (load : Loader) (options : ScanOptions) (files : List Path) (m : RuleMap) : Prop :=
  ∀ path ∈ files, ∀ t, (load path).outcome = .ok t → (t.scan options m).Succeeds

theorem outcome_scanFile (m : RuleMap) (number : Nat) (path : Path) :
    (scanFile load options m number path).outcome = .ok (scanned load options m path) := by
  rw [scanFile, outcome_bind_of_ok (outcome_report _), outcome_bind_of_ok (outcome_attempt _), scanned]
  cases (load path >>= fun t => t.scan options m).outcome with
  | ok records => rfl
  | error fault => exact outcome_bind_of_ok (outcome_report _) _

theorem outcome_scan (number : Nat) (files : List Path) (m : RuleMap) :
    (scan load options number files m).outcome =
      .ok (records load options files m, stats load options number files m) := by
  have hfiles : (gather (fun path => return [← scanFile load options m number path]) files).outcome =
      .ok (files.map (scanned load options m)) :=
    outcome_gather_map (fun path => outcome_bind_of_ok (outcome_scanFile m number path) _) files
  rw [scan, outcome_bind_of_ok hfiles, records, ← List.flatMap_map]
  rfl

theorem mem_records_iff (number : Nat) {files : List Path} {m : RuleMap} {record : Record} :
    (∃ rs counts, (scan load options number files m).outcome = .ok (rs, counts) ∧ record ∈ rs) ↔
      record ∈ records load options files m := by
  simp [outcome_scan]

/-! ## Rules of several references -/

theorem scanned_of_error {m : RuleMap} {path : Path} {fault : Fault} (h : (load path).outcome = .error fault) :
    (scanned load options m path).records = [errorRecord path fault] := by
  have hscan : (load path >>= fun t => t.scan options m).outcome = .error fault := by
    rw [outcome_bind, h]
    rfl
  rw [scanned, hscan]

theorem mem_scanned_of_ok {m : RuleMap} {path : Path} {t : SyntaxTree} (h : (load path).outcome = .ok t)
    (hs : (t.scan options m).Succeeds) {record : Record} :
    record ∈ (scanned load options m path).records ↔ (t.scan options m).Contains record := by
  obtain ⟨rs, hrs⟩ := hs
  rw [scanned, outcome_bind_of_ok h, hrs, contains_iff_mem hrs]

/-- A pass for several references finds what the passes for each of them
find. -/
theorem mem_records_ofReferences {files : List Path} {refs : List Reference} (hne : refs ≠ [])
    (hs : ∀ r ∈ refs, Scannable load options files (.ofReferences [r])) {record : Record} :
    record ∈ records load options files (.ofReferences refs) ↔
      ∃ r ∈ refs, record ∈ records load options files (.ofReferences [r]) := by
  have hfile : ∀ path ∈ files, record ∈ (scanned load options (.ofReferences refs) path).records ↔
      ∃ r ∈ refs, record ∈ (scanned load options (.ofReferences [r]) path).records := by
    intro path hpath
    cases hload : (load path).outcome with
    | error fault =>
      simp only [scanned_of_error hload]
      constructor
      · obtain ⟨r, hr⟩ := List.exists_mem_of_ne_nil refs hne
        exact fun h => ⟨r, hr, h⟩
      · rintro ⟨r, -, h⟩
        exact h
    | ok t =>
      have hjoin := (SyntaxTree.holdsAll_ofReferences refs).scan_joins (t := t) options
      have hall := hjoin.1.2 fun r hr => hs r hr path hpath t hload
      rw [mem_scanned_of_ok hload hall, hjoin.2, and_iff_right hall]
      refine exists_congr fun r => and_congr_right fun hr => ?_
      rw [mem_scanned_of_ok hload (hs r hr path hpath t hload)]
  simp only [records, List.mem_flatMap]
  constructor
  · rintro ⟨path, hpath, h⟩
    obtain ⟨r, hr, h⟩ := (hfile path hpath).1 h
    exact ⟨r, hr, path, hpath, h⟩
  · rintro ⟨r, hr, path, hpath, h⟩
    exact ⟨path, hpath, (hfile path hpath).2 ⟨r, hr, h⟩⟩

end CommandTrace.Pass
