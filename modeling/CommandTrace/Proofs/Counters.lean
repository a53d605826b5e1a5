/-
The counts of an analysis add up.

A scan pass counts each of its files once, as scanned or as failed, and a
failed file is one error record: `scanned_add_failed` and `countP_isError`.
The look-up pass only fills records in. It keeps their number and the error
records, and a record that it fills in is open before and not after
(`countP_isOpen_lookedUp`). So the counts that an analysis reports, which are
taken from the records at the end, agree with those that its passes kept on the
way: `run_counts_balance`.
-/
import CommandTrace.Proofs.MoreRounds
import Mathlib.Algebra.GroupWithZero.Nat

namespace CommandTrace

open Logged

namespace Pass

variable {load : Loader} {options : ScanOptions} {m : RuleMap}

/-! ## Scan passes -/

theorem scanned_add_failed (number : Nat) (files : List Path) :
    (stats load options number files m).scanned + (stats load options number files m).failed = files.length := by
  simp only [stats_eq]
  have hsplit := List.length_eq_countP_add_countP (fun path => (scanned load options m path).failed) (l := files)
  simp only [Bool.not_eq_true, Bool.decide_eq_false] at hsplit
  omega

theorem failed_scanned (path : Path) : (scanned load options m path).failed = (fault? load options m path).isSome := by
  rw [scanned, fault?]
  cases (load path >>= fun t => t.scan options m).outcome <;> rfl

/-- The error records of a pass are as many as the files that failed in it. -/
theorem countP_isError (number : Nat) (files : List Path) :
    (records load options files m).countP Record.isError = (stats load options number files m).failed := by
  have hfailed : (stats load options number files m).failed =
      files.countP fun path => (fault? load options m path).isSome := by
    simp only [stats_eq, failed_scanned]
  rw [hfailed, List.countP_eq_length_filter, filter_isError_records, List.length_filterMap_eq_countP]
  simp only [Option.isSome_map]

/-! ## The look-up pass -/

theorem isError_lookedUp (files : List Path) (r : Record) : (lookedUp load files r).isError = r.isError := by
  unfold lookedUp
  split <;> rfl

/-- A record is still open after a look-up that found nothing for it. -/
theorem isOpen_lookedUp (files : List Path) (r : Record) :
    (lookedUp load files r).isOpen = (r.isOpen && !(valueFor load files r).isSome) := by
  cases hvalue : valueFor load files r with
  | none => simp [lookedUp_of_none hvalue]
  | some value =>
    have hclosed := not_isOpen_resolved r value
    simp [lookedUp_of_some hvalue, hclosed]

/-- The open records are those that stay open and those that are filled in. -/
theorem countP_isOpen_lookedUp (files : List Path) (records : List Record) :
    (records.map (lookedUp load files)).countP Record.isOpen +
        records.countP (fun r => (valueFor load files r).isSome) = records.countP Record.isOpen := by
  induction records with
  | nil => rfl
  | cons r records ih =>
    simp only [List.map_cons, List.countP_cons, isOpen_lookedUp]
    cases hvalue : valueFor load files r with
    | none =>
      simp only [Option.isSome_none, Bool.not_false, Bool.and_true, Bool.false_eq_true, if_false]
      omega
    | some value =>
      have hopen := isOpen_of_valueFor hvalue
      simp only [Option.isSome_some, Bool.not_true, Bool.and_false, Bool.false_eq_true, if_false, hopen, if_true]
      omega

end Pass

namespace Analysis

/-! ## The counts of the whole -/

theorem unresolvedCount_eq (a : Analysis) : a.unresolvedCount = a.records.countP Record.isOpen := by
  rw [unresolvedCount, outputRecords, List.countP_filter]
  rfl

section

variable {load : Loader} {options : Options} {rules : RuleMap} {targets corpus : List Path}

theorem length_roundReferences_le :
    (roundReferences load options rules targets corpus).length ≤ (max 1 options.rounds).toNat :=
  length_rounds_le _ _ _ _

/-- The error records of each scan pass are as many as its failed files. -/
theorem map_failed_foundStats :
    (foundStats load options rules targets corpus).map PassStats.failed =
      (foundRecords load options rules targets corpus).map (List.countP Record.isError) := by
  simp only [foundStats, foundRecords, List.map_cons, List.map_map, Function.comp_def]
  rw [Pass.countP_isError 1]
  simp only [Pass.countP_isError 2]

/-- **The counts of an analysis balance.** Every analysis that returns has made
the scan of the targets, at most as many rounds as are allowed, and the look-up
of names. Each scan pass has counted all of its files; its records are those
that the scan passes found, and its errors those files that failed in them. Of
the open records before the look-up each is either found by it or counted as
unresolved. -/
theorem run_counts_balance {result : Analysis}
    (h : (run load options rules targets corpus).outcome = .ok result) :
    ∃ (scanned : Analysis) (first : PassStats) (rounds : List PassStats) (last : PassStats),
      (scanPasses load options rules targets corpus).outcome = .ok scanned ∧
      scanned.passes = first :: rounds ∧ result.passes = first :: rounds ++ [last] ∧
      (first.number = 1 ∧ (∀ stats ∈ rounds, stats.number = 2) ∧ last.number = 3) ∧
      rounds.length ≤ (max 1 options.rounds).toNat ∧
      first.scanned + first.failed = targets.length ∧
      (∀ stats ∈ rounds, stats.scanned + stats.failed = corpus.length) ∧
      result.records.length = ((first :: rounds).map PassStats.found).sum ∧
      result.errorCount = ((first :: rounds).map PassStats.failed).sum ∧
      result.unresolvedCount + last.found =
        scanned.records.countP fun record => record.isVariable && !record.isPending := by
  obtain ⟨last, hlookup, hnumber, hresult⟩ := run_eq_ok h
  have hfound := (Pass.declarations_eq_ok hlookup).2.2
  have hrounds : ∀ stats ∈ (roundReferences load options rules targets corpus).map fun refs =>
      Pass.stats load options.scan 2 corpus (.ofReferences refs),
      stats.number = 2 ∧ stats.scanned + stats.failed = corpus.length := by
    intro stats hstats
    obtain ⟨refs, -, rfl⟩ := List.mem_map.1 hstats
    exact ⟨rfl, Pass.scanned_add_failed 2 corpus⟩
  refine ⟨_, _, _, last, scanPasses_eq_ok load options rules targets corpus, rfl, by rw [hresult]; rfl,
    ⟨rfl, fun stats hs => (hrounds stats hs).1, hnumber⟩, ?_, Pass.scanned_add_failed 1 targets,
    fun stats hs => (hrounds stats hs).2, ?records, ?errors, ?unresolved⟩
  · rw [List.length_map]
    exact length_roundReferences_le
  case records =>
    rw [hresult, List.length_map, List.length_flatten, ← map_found_foundStats]
    rfl
  case errors =>
    -- a look-up changes no error record, so they are those of the scan passes
    have hkept : Record.isError ∘ Pass.lookedUp load corpus = Record.isError :=
      funext fun record => Pass.isError_lookedUp corpus record
    rw [hresult, errorCount, List.countP_map, hkept, List.countP_flatten, ← map_failed_foundStats]
    rfl
  case unresolved =>
    rw [unresolvedCount_eq, hfound, hresult]
    exact Pass.countP_isOpen_lookedUp corpus _

end

namespace Handed

/-- `class C { M(p) { X(p); } N() { M(k); M(n); } }`, where a name is one
character of the source. -/
def calls : ParseTree :=
  let name (field : Option String) (i : Nat) := ParseTree.node ⟨"identifier", field, i, i + 1, true⟩ []
  let call (callee argument : Nat) := ParseTree.node ⟨"invocation_expression", none, callee, callee + 1, true⟩
    [name (some "function") callee, .node ⟨"argument_list", some "arguments", argument, argument + 1, true⟩
      [.node ⟨"argument", none, argument, argument + 1, true⟩ [name none argument]]]
  let method (i : Nat) (parameters : List Nat) (calls : List ParseTree) :=
    ParseTree.node ⟨"method_declaration", none, 0, 7, true⟩
      [name (some "name") i,
        .node ⟨"parameter_list", some "parameters", 0, 7, true⟩
          (parameters.map fun p => .node ⟨"parameter", none, p, p + 1, true⟩ [name (some "name") p]),
        .node ⟨"block", some "body", 0, 7, true⟩ calls]
  .node ⟨"compilation_unit", none, 0, 7, true⟩
    [.node ⟨"class_declaration", none, 0, 7, true⟩
      [name (some "name") 0, method 1 [4] [call 3 4], method 2 [] [call 1 5, call 1 6]]]

/-- The declarator `k = 7`, outside of all types. -/
def constant : ParseTree :=
  .node ⟨"variable_declarator", none, 0, 2, true⟩
    [.node ⟨"identifier", some "name", 0, 1, true⟩ [], .node ⟨"=", none, 1, 1, false⟩ [],
      .node ⟨"integer_literal", none, 1, 2, true⟩ []]

/-- File `A` is missing, `B` has the calls and `D` the constant. -/
def load : Loader := fun path =>
  if path = .ofString "A" then Logged.ofExcept (.error (.file (.notFound path)))
  else if path = .ofString "B" then pure (.ofParseTree path "CMNXpkn".toUTF8.data calls false)
  else pure (.ofParseTree path "k7".toUTF8.data constant false)

def rules : RuleMap := .ofList [{ key := "X", methodName := "X", index := 0 }]

def targets : List Path := [.ofString "B"]

def corpus : List Path := [.ofString "A", .ofString "B", .ofString "D"]

/-- The round finds the error of `A` and the names `k` and `n`, of which the
look-up finds `k`. -/
theorem counts_balance :
    ∃ result scanned, (run load {} rules targets corpus).outcome = .ok result ∧
      (scanPasses load {} rules targets corpus).outcome = .ok scanned ∧
      result.passes = [⟨1, 1, 0, 1⟩, ⟨2, 2, 1, 3⟩, ⟨3, 2, 1, 1⟩] ∧
      result.records.length = 1 + 3 ∧ result.errorCount = 0 + 1 ∧
      result.unresolvedCount + 1 = scanned.records.countP fun record => record.isVariable && !record.isPending := by
  have hpasses : (Analysis.passes <$> run load {} rules targets corpus).outcome =
      .ok [⟨1, 1, 0, 1⟩, ⟨2, 2, 1, 3⟩, ⟨3, 2, 1, 1⟩] := by decide +kernel
  obtain ⟨result, hrun, hpasses⟩ := map_eq_ok.1 hpasses
  obtain ⟨scanned, first, rounds, last, hscanned, -, heq, -, -, -, -, hrecords, herrors, hopen⟩ :=
    run_counts_balance hrun
  rw [hpasses, List.cons_append, List.cons.injEq] at heq
  obtain ⟨rfl, heq⟩ := heq
  have hrounds : [⟨2, 2, 1, 3⟩] = rounds := by simpa using congrArg List.dropLast heq
  have hlast : ⟨3, 2, 1, 1⟩ = last := by simpa using congrArg List.getLast? heq
  subst hrounds hlast
  exact ⟨result, scanned, hrun, hscanned, hpasses, hrecords, herrors, hopen⟩

end Handed

end Analysis

end CommandTrace
