/-
More rounds of propagation only extend an analysis.

The rounds that are made do not depend on how many are allowed, except that they
stop there: `rounds_take`. So an analysis with fewer rounds has found the first
records of one with more, and has found all of them if it stopped by itself. The
look-up of names at the end sees more open records in the longer analysis, and
may go into more files for them, but each record is looked up on its own.

A reference that a round finds has its rules in the next round, or had them
before: `mem_flatten_rounds`. Only those of the last round may be left without.
-/
import CommandTrace.Proofs.Run
import Mathlib.Data.List.Infix

namespace CommandTrace.Analysis

open Logged

/-! ## The rounds -/

section

variable {found : RuleMap → List Record}

theorem rounds_take {n m : Nat} (h : n ≤ m) (seen : List Reference) (frontier : List Record) :
    rounds found n seen frontier = (rounds found m seen frontier).take n := by
  induction n generalizing m seen frontier with
  | zero => rfl
  | succ n ih =>
    obtain ⟨m, rfl⟩ : ∃ m', m = m' + 1 := ⟨m - 1, by omega⟩
    have hrest : n ≤ m := by omega
    by_cases hnil : newReferences seen frontier = []
    · rw [rounds_succ_nil hnil, rounds_succ_nil hnil, List.take_nil]
    · rw [rounds_succ_cons hnil, rounds_succ_cons hnil, List.take_succ_cons, ih hrest]

/-- The references of all records but those of the last round have a round. -/
theorem mem_flatten_rounds {remaining : Nat} {seen : List Reference} {frontier records : List Record}
    (hrecords : records ∈ (frontier :: (rounds found remaining seen frontier).map fun refs =>
      found (.ofReferences refs)).dropLast)
    {record : Record} (hrecord : record ∈ records) {r : Reference} (hr : record.pending = some r) :
    r ∈ seen ∨ r ∈ (rounds found remaining seen frontier).flatten := by
  induction remaining generalizing seen frontier with
  | zero => simp [rounds] at hrecords
  | succ remaining ih =>
    by_cases hnil : newReferences seen frontier = []
    · simp [rounds_succ_nil hnil] at hrecords
    · rw [rounds_succ_cons hnil, List.map_cons, List.dropLast_cons_cons] at hrecords
      rw [rounds_succ_cons hnil, List.flatten_cons, List.mem_append, ← or_assoc, ← List.mem_append]
      rcases List.mem_cons.1 hrecords with rfl | hrecords
      · left
        by_cases hseen : r ∈ seen
        · exact List.mem_append_left _ hseen
        · exact List.mem_append_right _ (mem_newReferences.2 ⟨⟨record, hrecord, hr⟩, hseen⟩)
      · exact ih hrecords

end

/-! ## The counts -/

/-- The counts of the rounds of propagation. -/
def roundStats (a : Analysis) : List PassStats :=
  a.passes.filter fun stats => stats.number = 2

section

variable {load : Loader} {options : Options} {rules : RuleMap} {targets corpus : List Path}

theorem filter_foundStats :
    (foundStats load options rules targets corpus).filter (fun stats => stats.number = 2) =
      (roundReferences load options rules targets corpus).map fun refs =>
        Pass.stats load options.scan 2 corpus (.ofReferences refs) := by
  rw [foundStats, List.filter_cons_of_neg (by simp [Pass.stats, Pass.summarize]), List.filter_eq_self]
  intro stats hstats
  obtain ⟨refs, -, rfl⟩ := List.mem_map.1 hstats
  rfl

/-- The counts of a pass say how many records it found. -/
theorem map_found_foundStats :
    (foundStats load options rules targets corpus).map PassStats.found =
      (foundRecords load options rules targets corpus).map List.length := by
  simp [foundStats, foundRecords, Pass.stats_eq]

end

/-! ## Fewer and more rounds -/

section

variable {load : Loader} {scan : ScanOptions} {rules : RuleMap} {targets corpus : List Path} {n m : Int}

variable (load scan rules targets corpus) in
/-- At least one round is made. -/
theorem roundReferences_take (h : n ≤ m) :
    roundReferences load { scan, rounds := n } rules targets corpus =
      (roundReferences load { scan, rounds := m } rules targets corpus).take (max 1 n).toNat := by
  refine rounds_take ?_ [] _
  simp only [Options.roundCount]
  omega

theorem foundRecords_extend (h : n ≤ m) :
    (foundRecords load { scan, rounds := n } rules targets corpus).flatten <+:
      (foundRecords load { scan, rounds := m } rules targets corpus).flatten := by
  rw [foundRecords, foundRecords, roundReferences_take load scan rules targets corpus h, List.map_take,
    List.flatten_cons, List.flatten_cons, List.prefix_append_right_inj]
  exact (List.take_prefix _ _).flatten

/-- The look-up pass goes into no file that it would not go into with more
records. -/
theorem looksInto_of_subset {records records' : List Record} (h : ∀ r ∈ records, r ∈ records') {path : Path}
    (hlooks : Pass.LooksInto load records corpus path) : Pass.LooksInto load records' corpus path := by
  obtain ⟨before, after, hfiles, r, hr, hopen⟩ := hlooks
  exact ⟨before, after, hfiles, r, h r hr, hopen⟩

/-- An analysis returns if one with more rounds does. -/
theorem run_succeeds_of_le (h : n ≤ m)
    (hm : (run load { scan, rounds := m } rules targets corpus).Succeeds) :
    (run load { scan, rounds := n } rules targets corpus).Succeeds := by
  rw [run_succeeds_iff, Pass.declarations_succeeds_iff] at hm ⊢
  exact fun path hlooks => hm path (looksInto_of_subset (fun r hr => (foundRecords_extend h).subset hr) hlooks)

end

/-! ## What is returned -/

section

variable {load : Loader} {options : Options} {rules : RuleMap} {targets corpus : List Path} {result : Analysis}

theorem roundStats_of_run (h : (run load options rules targets corpus).outcome = .ok result) :
    result.roundStats = (roundReferences load options rules targets corpus).map fun refs =>
      Pass.stats load options.scan 2 corpus (.ofReferences refs) := by
  obtain ⟨stats, -, hnumber, rfl⟩ := run_eq_ok h
  rw [roundStats, List.filter_append, filter_foundStats, List.filter_cons_of_neg (by simp [hnumber]),
    List.filter_nil, List.append_nil]

/-- Analyses with the same rounds return the same. -/
theorem run_congr {options' : Options} {result' : Analysis} (hscan : options.scan = options'.scan)
    (hrounds : roundReferences load options rules targets corpus =
      roundReferences load options' rules targets corpus)
    (h : (run load options rules targets corpus).outcome = .ok result)
    (h' : (run load options' rules targets corpus).outcome = .ok result') : result = result' := by
  have hrecords : foundRecords load options rules targets corpus = foundRecords load options' rules targets corpus := by
    rw [foundRecords, foundRecords, hscan, hrounds]
  have hstats : foundStats load options rules targets corpus = foundStats load options' rules targets corpus := by
    rw [foundStats, foundStats, hscan, hrounds]
  obtain ⟨stats, hlookup, -, hresult⟩ := run_eq_ok h
  obtain ⟨stats', hlookup', -, hresult'⟩ := run_eq_ok h'
  rw [← hrecords, hlookup, Except.ok.injEq, Prod.mk.injEq] at hlookup'
  rw [hresult, hresult', hrecords, hstats, hrounds, hlookup'.2]

theorem mem_lookup_ofReferences_of_mem {refs : List Reference} {r : Reference} (hr : r ∈ refs) {name : String}
    (hname : name ∈ r.typeNames) (hne : name ≠ "") :
    ∃ rule ∈ (RuleMap.ofReferences refs).lookup (name ++ "." ++ r.methodName),
      rule.index = r.index ∧ rule.space = r.space := by
  refine ⟨⟨name ++ "." ++ r.methodName, r.methodName, r.index, r.space, .pending⟩, ?_, rfl, rfl⟩
  refine RuleMap.mem_lookup_ofList.2 ⟨List.mem_flatMap.2 ⟨r, hr, ?_⟩, rfl⟩
  exact List.mem_map.2 ⟨name, List.mem_filter.2 ⟨hname, by simpa using hne⟩, rfl⟩

/-- The records of an analysis come pass by pass, and those before the last
round carry references that have their rules. -/
theorem exists_found_of_run (h : (run load options rules targets corpus).outcome = .ok result) :
    ∃ found : List (List Record), result.records = found.flatten ∧
      found.map List.length = result.passes.dropLast.map PassStats.found ∧
      ∀ records ∈ found.dropLast, ∀ record ∈ records, ∀ r, record.pending = some r →
        ∀ name ∈ r.typeNames, name ≠ "" →
          ∃ rule ∈ result.pendingRules.lookup (name ++ "." ++ r.methodName),
            rule.index = r.index ∧ rule.space = r.space := by
  obtain ⟨stats, -, -, rfl⟩ := run_eq_ok h
  refine ⟨(foundRecords load options rules targets corpus).map (List.map (Pass.lookedUp load corpus)), ?_, ?_, ?_⟩
  · exact List.map_flatten
  · have hlength : (fun records : List Record => (records.map (Pass.lookedUp load corpus)).length) = List.length :=
      funext fun records => List.length_map _
    rw [List.map_map, Function.comp_def, hlength, List.dropLast_concat, map_found_foundStats]
  · intro records hrecords record hrecord r hr name hname hne
    rw [← List.map_dropLast] at hrecords
    obtain ⟨before, hbefore, rfl⟩ := List.mem_map.1 hrecords
    obtain ⟨found, hfound, rfl⟩ := List.mem_map.1 hrecord
    rw [Pass.pending_lookedUp] at hr
    have hmem := (mem_flatten_rounds hbefore hfound hr).resolve_left List.not_mem_nil
    exact mem_lookup_ofReferences_of_mem hmem hname hne

end

/-- **More rounds only extend an analysis.** If an analysis with up to `m`
rounds returns, so does one with up to `n ≤ m`. Its records are the first ones
of the longer analysis, before the look-up of names and after it; its rounds are
the first ones, with the same counts; and if it made fewer rounds than it was
allowed, the two are equal. In every analysis, the references of all records but
those of the last round have their rules among the pending ones. -/
theorem run_extends (load : Loader) (scan : ScanOptions) (rules : RuleMap) (targets corpus : List Path) {n m : Int}
    (hnm : n ≤ m) {b : Analysis} (hb : (run load { scan, rounds := m } rules targets corpus).outcome = .ok b) :
    ∃ a before before', (run load { scan, rounds := n } rules targets corpus).outcome = .ok a ∧
      (scanPasses load { scan, rounds := n } rules targets corpus).outcome = .ok before ∧
      (scanPasses load { scan, rounds := m } rules targets corpus).outcome = .ok before' ∧
      before.records <+: before'.records ∧ a.records <+: b.records ∧
      a.roundStats = b.roundStats.take (max 1 n).toNat ∧
      (a.roundStats.length < (max 1 n).toNat → a = b) ∧
      ∃ found : List (List Record), b.records = found.flatten ∧
        found.map List.length = b.passes.dropLast.map PassStats.found ∧
        ∀ records ∈ found.dropLast, ∀ record ∈ records, ∀ r, record.pending = some r →
          ∀ name ∈ r.typeNames, name ≠ "" →
            ∃ rule ∈ b.pendingRules.lookup (name ++ "." ++ r.methodName),
              rule.index = r.index ∧ rule.space = r.space := by
  obtain ⟨a, ha⟩ := run_succeeds_of_le hnm ⟨b, hb⟩
  have hrounds := roundReferences_take load scan rules targets corpus hnm
  refine ⟨a, _, _, ha, scanPasses_eq_ok _ _ _ _ _, scanPasses_eq_ok _ _ _ _ _, foundRecords_extend hnm, ?looked,
    ?stats, ?fixpoint, exists_found_of_run hb⟩
  case looked =>
    obtain ⟨-, -, -, rfl⟩ := run_eq_ok ha
    obtain ⟨-, -, -, rfl⟩ := run_eq_ok hb
    exact (foundRecords_extend hnm).map _
  case stats => rw [roundStats_of_run ha, roundStats_of_run hb, hrounds, List.map_take]
  case fixpoint =>
    intro hshort
    rw [roundStats_of_run ha, List.length_map, hrounds, List.length_take] at hshort
    rw [List.take_of_length_le (by omega)] at hrounds
    exact run_congr (by rfl) hrounds ha hb

/-- The cycle of two methods is not closed with one round; it is with two, and
a third would have nothing to do. -/
theorem Mutual.extended_by_a_round :
    (1 : Int) ≤ 3 ∧ ∃ a b, (run load { rounds := 1 } rules [file] [file]).outcome = .ok a ∧
      (run load { rounds := 3 } rules [file] [file]).outcome = .ok b ∧
      a.records <+: b.records ∧ b.records = [recordOf "B", recordOf "A", recordOf "B"] ∧
      a.roundStats = b.roundStats.take 1 ∧ b.roundStats.length = 2 ∧ a ≠ b := by
  have hvalues : ((fun b => (b.records, b.roundStats.length)) <$>
      run load { rounds := 3 } rules [file] [file]).outcome =
        .ok ([recordOf "B", recordOf "A", recordOf "B"], 2) := by decide +kernel
  obtain ⟨b, hb, hvalues⟩ := map_eq_ok.1 hvalues
  obtain ⟨hrecords, hrounds⟩ := Prod.mk.inj hvalues
  obtain ⟨a, -, -, ha, -, -, -, hsubset, hstats, -, -⟩ :=
    run_extends load {} rules [file] [file] (by decide : (1 : Int) ≤ 3) hb
  have hne : a ≠ b := by
    intro h
    have hlength := congrArg List.length hstats
    rw [h, List.length_take, hrounds] at hlength
    exact absurd hlength (by decide)
  exact ⟨by decide, a, b, ha, hb, hsubset, hrecords, hstats, hrounds, hne⟩

end CommandTrace.Analysis
