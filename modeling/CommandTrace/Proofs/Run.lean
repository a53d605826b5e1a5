/-
What an analysis that returns consists of.

A look-up pass that returns has looked up every record (`declarations_eq_ok`),
also where it stopped before the last file or a file it never came to is not
sound: when it stops, no record is open. So the records of an analysis are those
of the scan passes, each looked up on its own, and all else is what the scan
passes left: `run_eq_ok`.
-/
import CommandTrace.Proofs.Isolation

namespace CommandTrace

open Logged

namespace Pass

variable {load : Loader}

theorem looksUp_of_succeeds {files : List Path} {records : List Record} {stats : PassStats}
    (h : (lookupFrom load records stats files).Succeeds) : LooksUp load files records stats := by
  induction files generalizing records stats with
  | nil => exact looksUp_nil records stats
  | cons path rest ih =>
    by_cases hopen : records.any Record.isOpen = true
    · rcases usable_of_lookupFrom hopen h with ⟨error, herror⟩ | ⟨t, table, hload, htable⟩
      · rw [Succeeds, outcome_lookupFrom_of_unreadable rest hopen stats herror] at h
        exact looksUp_of_unreadable hopen herror (ih h)
      · rw [Succeeds, outcome_lookupFrom_of_readable rest hopen stats hload htable] at h
        exact looksUp_of_readable hopen hload htable (ih h)
    · exact looksUp_of_closed hopen stats

/-- A look-up pass that returns has looked up every record, and counted those
that it found a value for. -/
theorem declarations_eq_ok {number : Int} {records result : List Record} {files : List Path} {stats : PassStats}
    (h : (declarations load number records files).outcome = .ok (result, stats)) :
    result = records.map (lookedUp load files) ∧ stats.number = number ∧
      stats.found = records.countP fun r => (valueFor load files r).isSome := by
  rw [declarations] at h
  split at h
  · obtain ⟨stats', hout, hnumber, hfound, -⟩ := looksUp_of_succeeds ⟨_, h⟩
    rw [h, Except.ok.injEq, Prod.mk.injEq] at hout
    obtain ⟨rfl, rfl⟩ := hout
    exact ⟨rfl, hnumber, by simpa using hfound⟩
  · next hopen =>
    rw [outcome_bind_of_ok (outcome_report _)] at h
    cases h
    have hnone : ∀ r ∈ records, valueFor load files r = none := fun r hr =>
      valueFor_of_not_isOpen fun ho => hopen (List.any_eq_true.2 ⟨r, hr, ho⟩)
    exact ⟨(map_lookedUp_of_none hnone).symm, rfl, (countP_of_none hnone).symm⟩

theorem pending_lookedUp (files : List Path) (r : Record) : (lookedUp load files r).pending = r.pending := by
  unfold lookedUp
  split <;> rfl

end Pass

namespace Analysis

variable {load : Loader} {options : Options} {rules : RuleMap} {targets corpus : List Path}

/-- The records of the scan of the targets and of each round of propagation. -/
def foundRecords (load : Loader) (options : Options) (rules : RuleMap) (targets corpus : List Path) :
    List (List Record) :=
  Pass.records load options.scan targets rules ::
    (roundReferences load options rules targets corpus).map fun refs =>
      Pass.records load options.scan corpus (.ofReferences refs)

/-- The counts of the scan of the targets and of each round of propagation. -/
def foundStats (load : Loader) (options : Options) (rules : RuleMap) (targets corpus : List Path) :
    List PassStats :=
  Pass.stats load options.scan 1 targets rules ::
    (roundReferences load options rules targets corpus).map fun refs =>
      Pass.stats load options.scan 2 corpus (.ofReferences refs)

theorem scanPasses_eq_ok (load : Loader) (options : Options) (rules : RuleMap) (targets corpus : List Path) :
    (scanPasses load options rules targets corpus).outcome = .ok
      { records := (foundRecords load options rules targets corpus).flatten
        pendingRules := .ofReferences (roundReferences load options rules targets corpus).flatten
        passes := foundStats load options rules targets corpus } := by
  rw [scanPasses_outcome, foundRecords, List.flatten_cons, List.flatMap_def]
  rfl

theorem run_succeeds_iff :
    (run load options rules targets corpus).Succeeds ↔
      (Pass.declarations load 3 (foundRecords load options rules targets corpus).flatten corpus).Succeeds := by
  rw [run, Succeeds, outcome_bind_of_ok (scanPasses_eq_ok load options rules targets corpus),
    outcome_bind_of_ok (outcome_report _), ← Succeeds, bind_succeeds]
  refine exists_congr fun result => and_iff_left ?_
  exact bind_succeeds.2 ⟨(), outcome_report _, pure_succeeds _⟩

/-- **What an analysis returns**: the records of the scan passes, each looked up
on its own, the rules of all rounds, and the counts of all passes. -/
theorem run_eq_ok {result : Analysis} (h : (run load options rules targets corpus).outcome = .ok result) :
    ∃ stats, (Pass.declarations load 3 (foundRecords load options rules targets corpus).flatten corpus).outcome =
        .ok (result.records, stats) ∧
      stats.number = 3 ∧
      result =
        { records := (foundRecords load options rules targets corpus).flatten.map (Pass.lookedUp load corpus)
          pendingRules := .ofReferences (roundReferences load options rules targets corpus).flatten
          passes := foundStats load options rules targets corpus ++ [stats] } := by
  rw [run, outcome_bind_of_ok (scanPasses_eq_ok load options rules targets corpus),
    outcome_bind_of_ok (outcome_report _)] at h
  obtain ⟨⟨records, stats⟩, hlookup, h⟩ := bind_eq_ok.1 h
  rw [outcome_bind_of_ok (outcome_report _)] at h
  cases h
  obtain ⟨hrecords, hnumber, -⟩ := Pass.declarations_eq_ok hlookup
  subst hrecords
  exact ⟨stats, hlookup, hnumber, rfl⟩

end Analysis

end CommandTrace
