/-
The order of rules and of target files.

Lines of rules in another order give the same rules, and a scan sees its rules
as a set, so a pass over the same files gives the same records and counts:
`Pass.records_perm`, `Pass.stats_congr`. The records of a round are then the same
up to order, and so are the references that are new in it; they give the same
rules for the next round. The look-up pass treats each record on its own and
goes into the same files, whatever the order of the records.

None of this holds where a scan fails: which of several faults is met first, and
is recorded, may depend on the order of the rules.
-/
import CommandTrace.Proofs.Aggregation
import CommandTrace.Proofs.RuleLines
import CommandTrace.Proofs.RuleSets
import CommandTrace.Proofs.Run
import Mathlib.Data.List.Perm.Basic

namespace CommandTrace

open Logged

/-! ## Rules from lines -/

namespace RuleLine

/-- Lines in another order give the same rules. -/
theorem mem_rules_of_perm {lines lines' : List String} (h : lines.Perm lines') (rule : Rule) :
    rule ∈ (readAll lines).flatMap rules ↔ rule ∈ (readAll lines').flatMap rules := by
  rw [flatMap_rules_readAll, flatMap_rules_readAll]
  exact (h.flatMap_right _).mem_iff

end RuleLine

/-! ## Passes -/

namespace Pass

variable {load : Loader}

section

variable {options : ScanOptions} {rs rs' : List Rule} {files files' : List Path}

/-- What a file gives with the same rules in another order. -/
theorem scanned_perm (hrs : ∀ rule, rule ∈ rs ↔ rule ∈ rs') {path : Path}
    (hs : ∀ t, (load path).outcome = .ok t → (t.scan options (.ofList rs)).Succeeds) :
    (scanned load options (.ofList rs) path).records.Perm (scanned load options (.ofList rs') path).records ∧
      (scanned load options (.ofList rs) path).failed = (scanned load options (.ofList rs') path).failed := by
  cases hload : (load path).outcome with
  | error fault =>
    have hscan : ∀ m, (load path >>= fun t => t.scan options m).outcome = .error fault := by
      intro m
      rw [outcome_bind, hload]
      rfl
    rw [scanned, scanned, hscan, hscan]
    exact ⟨.refl _, rfl⟩
  | ok t =>
    obtain ⟨records, hrecords⟩ := hs t hload
    obtain ⟨records', hrecords', hperm⟩ := SyntaxTree.scan_sameElements hrs records hrecords
    rw [scanned, scanned, outcome_bind_of_ok hload, outcome_bind_of_ok hload, hrecords, hrecords']
    exact ⟨hperm, rfl⟩

variable (hrs : ∀ rule, rule ∈ rs ↔ rule ∈ rs') (hfiles : files.Perm files')
  (hs : Scannable load options files (.ofList rs))
include hrs hfiles hs

theorem records_perm :
    (records load options files (.ofList rs)).Perm (records load options files' (.ofList rs')) :=
  (List.Perm.flatMap_left files fun path hpath => (scanned_perm hrs (hs path hpath)).1).trans
    (hfiles.flatMap_right _)

theorem stats_congr (number : Nat) :
    stats load options number files (.ofList rs) = stats load options number files' (.ofList rs') := by
  have hcount : ∀ p : Bool → Bool, files.countP (fun path => p (scanned load options (.ofList rs) path).failed) =
      files'.countP (fun path => p (scanned load options (.ofList rs') path).failed) := by
    intro p
    rw [← hfiles.countP_eq]
    refine List.countP_congr fun path hpath => ?_
    rw [(scanned_perm hrs (hs path hpath)).2]
  rw [stats_eq, stats_eq, (records_perm hrs hfiles hs).length_eq, hcount fun failed => !failed,
    hcount fun failed => failed]

end

/-- The look-up pass, with the records in another order. -/
theorem lookupFrom_perm {files : List Path} {records records' found : List Record} {stats counts : PassStats}
    (hrecords : records.Perm records') (h : (lookupFrom load records stats files).outcome = .ok (found, counts)) :
    ∃ found', (lookupFrom load records' stats files).outcome = .ok (found', counts) ∧ found.Perm found' := by
  induction files generalizing records records' stats with
  | nil =>
    cases h
    exact ⟨records', rfl, hrecords⟩
  | cons path rest ih =>
    have hany := hrecords.any_eq (f := Record.isOpen)
    by_cases hopen : records.any Record.isOpen = true
    · have hopen' := hany ▸ hopen
      rcases usable_of_lookupFrom hopen ⟨_, h⟩ with ⟨error, herror⟩ | ⟨t, table, hload, htable⟩
      · rw [outcome_lookupFrom_of_unreadable rest hopen stats herror] at h
        rw [outcome_lookupFrom_of_unreadable rest hopen' stats herror]
        exact ih hrecords h
      · rw [outcome_lookupFrom_of_readable rest hopen stats hload htable, hrecords.countP_eq] at h
        rw [outcome_lookupFrom_of_readable rest hopen' stats hload htable]
        exact ih (hrecords.map _) h
    · have hopen' := hany ▸ hopen
      rw [lookupFrom, if_neg hopen] at h
      rw [lookupFrom, if_neg hopen']
      cases h
      exact ⟨records', rfl, hrecords⟩

theorem declarations_perm {number : Int} {files : List Path} {records records' found : List Record}
    {counts : PassStats} (hrecords : records.Perm records')
    (h : (declarations load number records files).outcome = .ok (found, counts)) :
    ∃ found', (declarations load number records' files).outcome = .ok (found', counts) ∧ found.Perm found' := by
  have hany := hrecords.any_eq (f := Record.isOpen)
  by_cases hopen : records.any Record.isOpen = true
  · rw [declarations, if_pos hopen] at h
    rw [declarations, if_pos (hany ▸ hopen)]
    exact lookupFrom_perm hrecords h
  · rw [declarations, if_neg hopen, outcome_bind_of_ok (outcome_report _)] at h
    rw [declarations, if_neg (hany ▸ hopen), outcome_bind_of_ok (outcome_report _)]
    cases h
    exact ⟨records', rfl, hrecords⟩

end Pass

/-! ## Rounds -/

namespace Analysis

theorem nodup_newReferences (seen : List Reference) (records : List Record) : (newReferences seen records).Nodup :=
  (nodup_distinct _).filter _

theorem newReferences_perm {seen seen' : List Reference} {records records' : List Record}
    (hseen : ∀ r, r ∈ seen ↔ r ∈ seen') (hrecords : records.Perm records') :
    (newReferences seen records).Perm (newReferences seen' records') := by
  rw [List.perm_ext_iff_of_nodup (nodup_newReferences _ _) (nodup_newReferences _ _)]
  intro r
  simp only [mem_newReferences, hseen, hrecords.mem_iff]

section

variable {load : Loader} {options : Options} {corpus : List Path}

/-- One round with its references in two orders, where no scan fails. -/
structure SameRound (load : Loader) (options : Options) (corpus : List Path) (refs refs' : List Reference) : Prop where
  perm : refs.Perm refs'
  scannable : Pass.Scannable load options.scan corpus (.ofReferences refs)

theorem SameRound.mem_rules {refs refs' : List Reference} (h : SameRound load options corpus refs refs') (rule : Rule) :
    rule ∈ refs.flatMap Rule.ofReference ↔ rule ∈ refs'.flatMap Rule.ofReference :=
  (h.perm.flatMap_right _).mem_iff

theorem SameRound.records_perm {refs refs' : List Reference} (h : SameRound load options corpus refs refs') :
    (Pass.records load options.scan corpus (.ofReferences refs)).Perm
      (Pass.records load options.scan corpus (.ofReferences refs')) :=
  Pass.records_perm h.mem_rules (.refl corpus) h.scannable

theorem SameRound.stats_eq {refs refs' : List Reference} (h : SameRound load options corpus refs refs') :
    Pass.stats load options.scan 2 corpus (.ofReferences refs) =
      Pass.stats load options.scan 2 corpus (.ofReferences refs') :=
  Pass.stats_congr h.mem_rules (.refl corpus) h.scannable 2

/-- The rounds from records in another order are the same, one by one. -/
theorem rounds_perm {remaining : Nat} {seen seen' : List Reference} {frontier frontier' : List Record}
    (hseen : ∀ r, r ∈ seen ↔ r ∈ seen') (hfrontier : frontier.Perm frontier')
    (hs : ∀ refs ∈ rounds (Pass.records load options.scan corpus) remaining seen frontier,
      Pass.Scannable load options.scan corpus (.ofReferences refs)) :
    List.Forall₂ (SameRound load options corpus)
      (rounds (Pass.records load options.scan corpus) remaining seen frontier)
      (rounds (Pass.records load options.scan corpus) remaining seen' frontier') := by
  induction remaining generalizing seen seen' frontier frontier' with
  | zero => exact .nil
  | succ remaining ih =>
    have hperm := newReferences_perm hseen hfrontier
    by_cases hnil : newReferences seen frontier = []
    · have hnil' : newReferences seen' frontier' = [] := by rwa [hnil, List.nil_perm] at hperm
      rw [rounds_succ_nil hnil, rounds_succ_nil hnil']
      exact .nil
    · have hnil' : newReferences seen' frontier' ≠ [] := by
        intro h
        rw [h, List.perm_nil] at hperm
        exact hnil hperm
      rw [rounds_succ_cons hnil] at hs ⊢
      rw [rounds_succ_cons hnil']
      obtain ⟨hfirst, hrest⟩ := List.forall_mem_cons.1 hs
      have hround : SameRound load options corpus _ _ := ⟨hperm, hfirst⟩
      refine .cons hround (ih (fun r => ?_) hround.records_perm hrest)
      rw [List.mem_append, List.mem_append, hseen, hperm.mem_iff]

/-- No scan of an analysis fails. -/
structure ScansReturn (load : Loader) (options : Options) (rules : RuleMap) (targets corpus : List Path) : Prop where
  target : Pass.Scannable load options.scan targets rules
  round : ∀ refs ∈ roundReferences load options rules targets corpus,
    Pass.Scannable load options.scan corpus (.ofReferences refs)

/-! ## The whole analysis -/

variable {rs rs' : List Rule} {targets targets' : List Path} (hrs : ∀ rule, rule ∈ rs ↔ rule ∈ rs')
  (htargets : targets.Perm targets') (hs : ScansReturn load options (.ofList rs) targets corpus)
include hrs htargets hs

theorem roundReferences_perm :
    List.Forall₂ (SameRound load options corpus) (roundReferences load options (.ofList rs) targets corpus)
      (roundReferences load options (.ofList rs') targets' corpus) :=
  rounds_perm (fun _ => .rfl) (Pass.records_perm hrs htargets hs.target) hs.round

theorem foundRecords_perm :
    (foundRecords load options (.ofList rs) targets corpus).flatten.Perm
      (foundRecords load options (.ofList rs') targets' corpus).flatten := by
  refine .flatten_congr (.cons (Pass.records_perm hrs htargets hs.target) ?_)
  rw [List.forall₂_map_left_iff, List.forall₂_map_right_iff]
  exact (roundReferences_perm hrs htargets hs).imp fun _ _ h => h.records_perm

theorem foundStats_congr :
    foundStats load options (.ofList rs) targets corpus = foundStats load options (.ofList rs') targets' corpus := by
  rw [foundStats, foundStats, Pass.stats_congr hrs htargets hs.target, List.cons.injEq]
  refine ⟨rfl, List.forall₂_eq_eq_eq ▸ ?_⟩
  rw [List.forall₂_map_left_iff, List.forall₂_map_right_iff]
  exact (roundReferences_perm hrs htargets hs).imp fun _ _ h => h.stats_eq

theorem mem_roundRules (rule : Rule) :
    rule ∈ (RuleMap.ofReferences (roundReferences load options (.ofList rs) targets corpus).flatten).toList ↔
      rule ∈ (RuleMap.ofReferences (roundReferences load options (.ofList rs') targets' corpus).flatten).toList := by
  rw [RuleMap.ofReferences, RuleMap.ofReferences, RuleMap.mem_toList_ofList, RuleMap.mem_toList_ofList]
  have hrefs := List.Perm.flatten_congr ((roundReferences_perm hrs htargets hs).imp fun _ _ h => h.perm)
  exact (hrefs.flatMap_right _).mem_iff

end

end Analysis

/-- The rows of records in another order. -/
theorem Report.rows_perm {records records' : List Record} (tokens : List Text) (h : records.Perm records') :
    (rows tokens records).Perm (rows tokens records') := by
  rw [rows_eq, rows_eq]
  refine distinct_perm fun row => ?_
  simp only [mem_allRows, h.mem_iff]

namespace Analysis

/-- **Neither the order of the lines with rules nor that of the targets makes a
difference** to an analysis in which no scan fails and every file that names are
looked up in is sound. It returns in either order, with the same records, the
order apart; with the same rules of rounds; with the same counts for each pass;
and with the same rows in the report, the order apart. -/
theorem run_perm (load : Loader) (options : Options) (corpus : List Path) {lines lines' : List String}
    {targets targets' : List Path} (hlines : lines.Perm lines') (htargets : targets.Perm targets')
    (hs : ScansReturn load options (.ofLines lines) targets corpus) {result : Analysis}
    (h : (run load options (.ofLines lines) targets corpus).outcome = .ok result) :
    ∃ result', (run load options (.ofLines lines') targets' corpus).outcome = .ok result' ∧
      result.records.Perm result'.records ∧
      (∀ rule, rule ∈ result.pendingRules.toList ↔ rule ∈ result'.pendingRules.toList) ∧
      result.passes = result'.passes ∧
      ∀ tokens, (Report.rows tokens result.records).Perm (Report.rows tokens result'.records) := by
  have hrules := RuleLine.mem_rules_of_perm hlines
  have hfound := foundRecords_perm hrules htargets hs
  obtain ⟨stats, hlookup, -, hresult⟩ := run_eq_ok h
  obtain ⟨records', hlookup', hrecords⟩ := Pass.declarations_perm hfound hlookup
  obtain ⟨result', h'⟩ := run_succeeds_iff.2 ⟨_, hlookup'⟩
  obtain ⟨stats', hlookup'', -, hresult'⟩ := run_eq_ok h'
  obtain ⟨rfl, rfl⟩ := Prod.mk.inj (Except.ok.inj (hlookup'.symm.trans hlookup''))
  refine ⟨result', h', hrecords, ?rules, ?passes, fun tokens => Report.rows_perm tokens hrecords⟩
  case rules =>
    rw [hresult, hresult']
    exact mem_roundRules hrules htargets hs
  case passes =>
    rw [hresult, hresult']
    exact congrArg (· ++ [stats]) (foundStats_congr hrules htargets hs)

namespace Mutual

def other : Path := .ofString "S.cs"

/-- The rules of the lines `X,0` and `R.B,0`. -/
def calls : RuleMap :=
  .ofList [{ key := "X", methodName := "X", index := 0 }, { key := "R.B", methodName := "B", index := 0 }]

theorem ofLines_eq_calls : RuleMap.ofLines ["X,0", "R.B,0"] = calls := by decide +kernel

theorem found_in_targets :
    Pass.records load options.scan [file, other] calls =
      [recordOf "A", recordOf "B", { recordOf "A" with file := other }, { recordOf "B" with file := other }] := by
  decide +kernel

theorem found_in_corpus :
    Pass.records load options.scan [file] (.ofReferences [parameterOf "A", parameterOf "B"]) =
      [recordOf "A", recordOf "B"] := by
  decide +kernel

theorem roundReferences_eq :
    roundReferences load options calls [file, other] [file] = [[parameterOf "A", parameterOf "B"]] := by
  have hfirst : newReferences [] (Pass.records load options.scan [file, other] calls) =
      [parameterOf "A", parameterOf "B"] := by
    rw [found_in_targets]
    decide
  have hsecond : newReferences ([] ++ [parameterOf "A", parameterOf "B"])
      (Pass.records load options.scan [file] (.ofReferences [parameterOf "A", parameterOf "B"])) = [] := by
    rw [found_in_corpus]
    decide
  have htwo : options.roundCount = 2 := by decide
  rw [roundReferences, htwo, rounds_succ_cons (by simp [hfirst]), hfirst, rounds_succ_nil hsecond]

theorem scansReturn : ScansReturn load options calls [file, other] [file] := by
  have htargets : ∀ path ∈ [file, other], ((SyntaxTree.ofParseTree path "RABXab".toUTF8.data parse false).scan
      options.scan calls).Succeeds := by decide +kernel
  have hcorpus : ((SyntaxTree.ofParseTree file "RABXab".toUTF8.data parse false).scan
      options.scan (.ofReferences [parameterOf "A", parameterOf "B"])).Succeeds := by decide +kernel
  constructor
  · intro path hpath t ht
    rw [load, outcome_pure, Except.ok.injEq] at ht
    exact ht ▸ htargets path hpath
  · intro refs hrefs path hpath t ht
    rw [roundReferences_eq, List.mem_singleton] at hrefs
    rw [List.mem_singleton.1 hpath, load, outcome_pure, Except.ok.injEq] at ht
    exact ht ▸ hrefs ▸ hcorpus

/-- No record is left to be looked up. -/
theorem run_succeeds : (run load options calls [file, other] [file]).Succeeds := by
  rw [run_succeeds_iff, foundRecords, roundReferences_eq, found_in_targets, List.map_singleton, found_in_corpus]
  exact ⟨_, rfl⟩

/-- Two targets, one of them in the corpus as well, and rules for calls of two
methods. -/
theorem in_either_order :
    ["X,0", "R.B,0"].Perm ["R.B,0", "X,0"] ∧ [file, other].Perm [other, file] ∧
      ScansReturn load options (.ofLines ["X,0", "R.B,0"]) [file, other] [file] ∧
      ∃ result result', (run load options (.ofLines ["X,0", "R.B,0"]) [file, other] [file]).outcome = .ok result ∧
        (run load options (.ofLines ["R.B,0", "X,0"]) [other, file] [file]).outcome = .ok result' ∧
        result.records.Perm result'.records ∧ result.passes = result'.passes := by
  have hlines : ["X,0", "R.B,0"].Perm ["R.B,0", "X,0"] := .swap ..
  have htargets : [file, other].Perm [other, file] := .swap ..
  have hs := scansReturn
  have hrun := run_succeeds
  rw [← ofLines_eq_calls] at hs hrun
  obtain ⟨result, h⟩ := hrun
  obtain ⟨result', h', hrecords, -, hpasses, -⟩ := run_perm load options [file] hlines htargets hs h
  exact ⟨hlines, htargets, hs, result, result', h, h', hrecords, hpasses⟩

end Mutual

end Analysis

end CommandTrace
