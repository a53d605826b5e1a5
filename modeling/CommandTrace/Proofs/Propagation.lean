/-
Propagation is a breadth-first search.

A reference leads to another one if a scan of the corpus for the calls of its
method finds a record that carries the other. `ReachedIn` counts the steps
from the records of the target files. Each round of propagation scans with the
rules of all its references at once, and leaves out those of earlier rounds;
`rounds` lists the references of each round, and `propagate_outcome` and
`propagate_events` say that propagation does just these rounds. The invariant
is `Level`: after `k` rounds the references seen are those reached in fewer
than `k` steps, and what the last round found are those reached in `k` steps,
apart from some that were seen before.

`scanPasses_breadth_first` puts it together: the records before the look-up
of names are those of the targets and of all references reached in fewer
steps than there are rounds, and every such reference has its round.
-/
import CommandTrace.Analysis
import CommandTrace.Proofs.Pass

namespace CommandTrace.Analysis

open Logged

/-! ## Chains of references -/

section

variable (load : Loader) (options : Options) (rules : RuleMap) (targets corpus : List Path)

/-- The scan of the target files with the user's rules finds the record. -/
def IsTargetRecord (record : Record) : Prop :=
  ∃ records stats, (Pass.scan load options.scan 1 targets rules).outcome = .ok (records, stats) ∧
    record ∈ records

/-- A scan of the corpus for the calls of the method of `r`, and nothing else,
finds the record. -/
def IsCallRecord (r : Reference) (record : Record) : Prop :=
  ∃ records stats, (Pass.scan load options.scan 2 corpus (.ofReferences [r])).outcome = .ok (records, stats) ∧
    record ∈ records

/-- The references reached from those of the target records by a chain of so
many steps, each from a reference to one that its call records carry. -/
inductive ReachedIn : Nat → Reference → Prop
  | start {record : Record} {r : Reference} : IsTargetRecord load options rules targets record →
      record.pending = some r → ReachedIn 0 r
  | step {k : Nat} {r r' : Reference} {record : Record} : ReachedIn k r →
      IsCallRecord load options corpus r record → record.pending = some r' → ReachedIn (k + 1) r'

/-- The references reached in fewer than `n` steps. -/
def ReachedWithin (n : Nat) (r : Reference) : Prop :=
  ∃ k < n, ReachedIn load options rules targets corpus k r

/-- What the rounds from `round` on report, given their references: which
these are, and the events of a scan of the corpus with the rules for them. -/
def roundEvents : (round : Nat) → List (List Reference) → List Event
  | _, [] => []
  | round, refs :: rest =>
    .roundStarted round corpus.length refs ::
      (Pass.scan load options.scan 2 corpus (.ofReferences refs)).events ++ roundEvents (round + 1) rest

end

section

variable {load : Loader} {options : Options} {rules : RuleMap} {targets corpus : List Path}

theorem isTargetRecord_iff {record : Record} :
    IsTargetRecord load options rules targets record ↔
      record ∈ Pass.records load options.scan targets rules :=
  Pass.mem_records_iff 1

theorem isCallRecord_iff {r : Reference} {record : Record} :
    IsCallRecord load options corpus r record ↔
      record ∈ Pass.records load options.scan corpus (.ofReferences [r]) :=
  Pass.mem_records_iff 2

/-! ## The rounds -/

theorem mem_newReferences {seen : List Reference} {records : List Record} {r : Reference} :
    r ∈ newReferences seen records ↔ (∃ record ∈ records, record.pending = some r) ∧ r ∉ seen := by
  simp [newReferences, mem_distinct]

/-- The references of each round, where `found` gives the records of a scan of
the corpus with a map. -/
def rounds (found : RuleMap → List Record) :
    (remaining : Nat) → (seen : List Reference) → (frontier : List Record) → List (List Reference)
  | 0, _, _ => []
  | remaining + 1, seen, frontier =>
    match newReferences seen frontier with
    | [] => []
    | refs => refs :: rounds found remaining (seen ++ refs) (found (.ofReferences refs))

theorem rounds_succ_nil {found : RuleMap → List Record} {remaining : Nat} {seen : List Reference}
    {frontier : List Record} (h : newReferences seen frontier = []) :
    rounds found (remaining + 1) seen frontier = [] := by
  rw [rounds, h]

theorem rounds_succ_cons {found : RuleMap → List Record} {remaining : Nat} {seen : List Reference}
    {frontier : List Record} (h : newReferences seen frontier ≠ []) :
    rounds found (remaining + 1) seen frontier =
      newReferences seen frontier ::
        rounds found remaining (seen ++ newReferences seen frontier)
          (found (.ofReferences (newReferences seen frontier))) := by
  rw [rounds]
  split
  · contradiction
  · rfl

/-- One round of propagation. -/
theorem propagate_succ_cons {scanCorpus : RuleMap → Logged (List Record × PassStats)} {files remaining round : Nat}
    {seen : List Reference} {frontier : List Record} {a : Analysis} (h : newReferences seen frontier ≠ []) :
    propagate scanCorpus files (remaining + 1) round seen frontier a = (do
      Logged.report (.roundStarted round files (newReferences seen frontier))
      let (records, stats) ← scanCorpus (.ofReferences (newReferences seen frontier))
      propagate scanCorpus files remaining (round + 1) (seen ++ newReferences seen frontier) records
        { records := a.records ++ records
          pendingRules := a.pendingRules.merge (.ofReferences (newReferences seen frontier))
          passes := a.passes ++ [stats] }) := by
  rw [propagate]
  split
  · contradiction
  · rfl

theorem propagate_succ_nil {scanCorpus : RuleMap → Logged (List Record × PassStats)} {files remaining round : Nat}
    {seen : List Reference} {frontier : List Record} {a : Analysis} (h : newReferences seen frontier = []) :
    propagate scanCorpus files (remaining + 1) round seen frontier a = (do
      if round = 1 then Logged.report .noReferencedMethods
      return a) := by
  rw [propagate, h]

/-- Propagation adds the records, rules and counts of its rounds. -/
theorem propagate_outcome {scanCorpus : RuleMap → Logged (List Record × PassStats)}
    {found : RuleMap → List Record} {stats : RuleMap → PassStats}
    (hscan : ∀ m, (scanCorpus m).outcome = .ok (found m, stats m)) (files remaining round : Nat)
    (seen : List Reference) (frontier : List Record) (a : Analysis) :
    (propagate scanCorpus files remaining round seen frontier a).outcome = .ok
      { records := a.records ++ (rounds found remaining seen frontier).flatMap fun refs => found (.ofReferences refs)
        pendingRules := (rounds found remaining seen frontier).foldl (fun m refs => m.merge (.ofReferences refs))
          a.pendingRules
        passes := a.passes ++ (rounds found remaining seen frontier).map fun refs => stats (.ofReferences refs) } := by
  induction remaining generalizing round seen frontier a with
  | zero => simp [propagate, rounds]
  | succ remaining ih =>
    by_cases h : newReferences seen frontier = []
    · rw [propagate_succ_nil h, rounds_succ_nil h]
      split
      · rw [outcome_bind_of_ok (outcome_report _)]
        simp
      · simp
    · rw [propagate_succ_cons h, rounds_succ_cons h, outcome_bind_of_ok (outcome_report _),
        outcome_bind_of_ok (hscan _), ih]
      simp

/-- Propagation reports its rounds, or that there was none. -/
theorem propagate_events {remaining round : Nat} (hround : 0 < round) (seen : List Reference)
    (frontier : List Record) (a : Analysis) :
    (propagate (Pass.scan load options.scan 2 corpus) corpus.length remaining round seen frontier a).events =
      roundEvents load options corpus round
          (rounds (Pass.records load options.scan corpus) remaining seen frontier) ++
        if round = 1 ∧ 0 < remaining ∧ rounds (Pass.records load options.scan corpus) remaining seen frontier = []
        then [.noReferencedMethods] else [] := by
  induction remaining generalizing round seen frontier a with
  | zero => simp [propagate, rounds, roundEvents, events_pure]
  | succ remaining ih =>
    by_cases h : newReferences seen frontier = []
    · rw [propagate_succ_nil h, rounds_succ_nil h]
      split
      · next hone =>
        rw [events_bind_of_ok (outcome_report _)]
        simp [roundEvents, events_pure, hone, Logged.report]
      · next hone => simp [roundEvents, events_pure, hone]
    · rw [propagate_succ_cons h, rounds_succ_cons h, events_bind_of_ok (outcome_report _),
        events_bind_of_ok (Pass.outcome_scan _ _ _), ih (by omega)]
      have hlater : round ≠ 0 := by omega
      simp [roundEvents, hlater, Logged.report]

/-! ## The invariant -/

/-- After `k` rounds: the references seen are those reached in fewer steps,
and those that the last records carry are reached in `k` steps. Only
references seen before may be missing among them. -/
structure Level (load : Loader) (options : Options) (rules : RuleMap) (targets corpus : List Path) (k : Nat)
    (seen : List Reference) (frontier : List Record) : Prop where
  seen_iff : ∀ r, r ∈ seen ↔ ReachedWithin load options rules targets corpus k r
  sound : ∀ record ∈ frontier, ∀ r, record.pending = some r → ReachedIn load options rules targets corpus k r
  complete : ∀ r, ReachedIn load options rules targets corpus k r →
    r ∈ seen ∨ ∃ record ∈ frontier, record.pending = some r

variable {k : Nat} {seen : List Reference} {frontier : List Record}

theorem Level.zero :
    Level load options rules targets corpus 0 [] (Pass.records load options.scan targets rules) where
  seen_iff r := by simp [ReachedWithin]
  sound record hmem r hr := .start (isTargetRecord_iff.2 hmem) hr
  complete r h := by
    cases h with
    | start hrecord hr => exact .inr ⟨_, isTargetRecord_iff.1 hrecord, hr⟩

/-- The new references are those reached in `k` steps and not in fewer. -/
theorem Level.mem_new (h : Level load options rules targets corpus k seen frontier) {r : Reference} :
    r ∈ newReferences seen frontier ↔ ReachedIn load options rules targets corpus k r ∧
      ∀ j < k, ¬ ReachedIn load options rules targets corpus j r := by
  rw [mem_newReferences, h.seen_iff]
  constructor
  · rintro ⟨⟨record, hrecord, hr⟩, hseen⟩
    exact ⟨h.sound record hrecord r hr, fun j hj hreach => hseen ⟨j, hj, hreach⟩⟩
  · rintro ⟨hreach, hnot⟩
    have hseen : ¬ ReachedWithin load options rules targets corpus k r := by
      rintro ⟨j, hj, hj'⟩
      exact hnot j hj hj'
    refine ⟨?_, hseen⟩
    rcases h.complete r hreach with hr | hr
    · exact absurd ((h.seen_iff r).1 hr) hseen
    · exact hr

theorem Level.seen_or_new (h : Level load options rules targets corpus k seen frontier) {r : Reference} :
    r ∈ seen ++ newReferences seen frontier ↔ ReachedWithin load options rules targets corpus (k + 1) r := by
  rw [List.mem_append, h.seen_iff, h.mem_new]
  constructor
  · rintro (⟨j, hj, hreach⟩ | ⟨hreach, -⟩)
    · exact ⟨j, by omega, hreach⟩
    · exact ⟨k, by omega, hreach⟩
  · rintro ⟨j, hj, hreach⟩
    by_cases hk : ReachedWithin load options rules targets corpus k r
    · exact .inl hk
    · have hj' : j = k := by
        by_contra hne
        exact hk ⟨j, by omega, hreach⟩
      exact .inr ⟨hj' ▸ hreach, fun i hi hi' => hk ⟨i, hi, hi'⟩⟩

/-- One round keeps the invariant, if its scan finds what the scans for each
of its references would. -/
theorem Level.next (h : Level load options rules targets corpus k seen frontier) {found : List Record}
    (hfound : ∀ record, record ∈ found ↔
      ∃ r ∈ newReferences seen frontier, IsCallRecord load options corpus r record) :
    Level load options rules targets corpus (k + 1) (seen ++ newReferences seen frontier) found where
  seen_iff _ := h.seen_or_new
  sound record hmem r' hr' := by
    obtain ⟨r, hr, hcall⟩ := (hfound record).1 hmem
    exact .step (h.mem_new.1 hr).1 hcall hr'
  complete r' hreach := by
    cases hreach with
    | @step _ r _ record hreach hcall hr' =>
      by_cases hr : r ∈ newReferences seen frontier
      · exact .inr ⟨record, (hfound record).2 ⟨r, hr, hcall⟩, hr'⟩
      · -- `r` had its round before, so `r'` was reached earlier.
        have hseen : r ∈ seen ++ newReferences seen frontier := h.seen_or_new.2 ⟨k, by omega, hreach⟩
        rcases List.mem_append.1 hseen with hseen | hseen
        · obtain ⟨j, hj, hj'⟩ := (h.seen_iff r).1 hseen
          exact .inl (h.seen_or_new.2 ⟨j + 1, by omega, .step hj' hcall hr'⟩)
        · exact absurd hseen hr

/-- Once a round has nothing new, no more steps reach anything new. -/
theorem Level.saturated (h : Level load options rules targets corpus k seen frontier)
    (hnil : newReferences seen frontier = []) {j : Nat} {r : Reference}
    (hreach : ReachedIn load options rules targets corpus j r) : r ∈ seen := by
  have hk : ∀ {r}, ReachedWithin load options rules targets corpus (k + 1) r → r ∈ seen := by
    intro r hr
    simpa [hnil] using h.seen_or_new.2 hr
  induction hreach with
  | start hrecord hr => exact hk ⟨0, by omega, .start hrecord hr⟩
  | step _ hcall hr ih =>
    obtain ⟨i, hi, hi'⟩ := (h.seen_iff _).1 ih
    exact hk ⟨i + 1, by omega, .step hi' hcall hr⟩

/-! ## All rounds -/

theorem length_rounds_le (found : RuleMap → List Record) (remaining : Nat) (seen : List Reference)
    (frontier : List Record) : (rounds found remaining seen frontier).length ≤ remaining := by
  induction remaining generalizing seen frontier with
  | zero => simp [rounds]
  | succ remaining ih =>
    by_cases h : newReferences seen frontier = []
    · simp [rounds_succ_nil h]
    · simpa [rounds_succ_cons h] using ih _ _

theorem ne_nil_of_mem_rounds {found : RuleMap → List Record} {remaining : Nat} {seen : List Reference}
    {frontier : List Record} {refs : List Reference} (hmem : refs ∈ rounds found remaining seen frontier) :
    refs ≠ [] := by
  induction remaining generalizing seen frontier with
  | zero => cases hmem
  | succ remaining ih =>
    by_cases h : newReferences seen frontier = []
    · rw [rounds_succ_nil h] at hmem
      cases hmem
    · rw [rounds_succ_cons h] at hmem
      rcases List.mem_cons.1 hmem with rfl | hmem
      · exact h
      · exact ih hmem

/-- The scans for references that are reached in time do not fail. -/
def ScansSucceed (load : Loader) (options : Options) (rules : RuleMap) (targets corpus : List Path) (n : Nat) :
    Prop :=
  ∀ r, ReachedWithin load options rules targets corpus n r →
    Pass.Scannable load options.scan corpus (.ofReferences [r])

theorem Level.round (h : Level load options rules targets corpus k seen frontier) {n : Nat} (hn : k < n)
    (hscan : ScansSucceed load options rules targets corpus n) (hne : newReferences seen frontier ≠ []) :
    Level load options rules targets corpus (k + 1) (seen ++ newReferences seen frontier)
      (Pass.records load options.scan corpus (.ofReferences (newReferences seen frontier))) := by
  refine h.next fun record => ?_
  have hrefs : ∀ r ∈ newReferences seen frontier, Pass.Scannable load options.scan corpus (.ofReferences [r]) :=
    fun r hr => hscan r ⟨k, hn, (h.mem_new.1 hr).1⟩
  simp only [isCallRecord_iff]
  exact Pass.mem_records_ofReferences hne hrefs

/-- The invariant holds before each round. -/
theorem Level.getElem?_rounds (h : Level load options rules targets corpus k seen frontier) {remaining : Nat}
    (hscan : ScansSucceed load options rules targets corpus (k + remaining)) {i : Nat} {refs : List Reference}
    (hi : (rounds (Pass.records load options.scan corpus) remaining seen frontier)[i]? = some refs) :
    ∃ seen' frontier', Level load options rules targets corpus (k + i) seen' frontier' ∧
      refs = newReferences seen' frontier' := by
  induction remaining generalizing k seen frontier i with
  | zero => simp [rounds] at hi
  | succ remaining ih =>
    by_cases hnil : newReferences seen frontier = []
    · simp [rounds_succ_nil hnil] at hi
    rw [rounds_succ_cons hnil] at hi
    cases i with
    | zero =>
      simp only [List.getElem?_cons_zero, Option.some.injEq] at hi
      exact ⟨seen, frontier, h, hi.symm⟩
    | succ i =>
      rw [List.getElem?_cons_succ] at hi
      have e : k + 1 + remaining = k + (remaining + 1) := by omega
      obtain ⟨seen', frontier', h', hrefs⟩ := ih (h.round (by omega) hscan hnil) (e ▸ hscan) hi
      exact ⟨seen', frontier', by rwa [Nat.add_right_comm] at h', hrefs⟩

/-- What is reached in time has been seen, or has its round. -/
theorem Level.mem_rounds (h : Level load options rules targets corpus k seen frontier) {remaining : Nat}
    (hscan : ScansSucceed load options rules targets corpus (k + remaining)) {r : Reference}
    (hr : ReachedWithin load options rules targets corpus (k + remaining) r) :
    r ∈ seen ∨ r ∈ (rounds (Pass.records load options.scan corpus) remaining seen frontier).flatten := by
  induction remaining generalizing k seen frontier with
  | zero => exact .inl ((h.seen_iff r).2 hr)
  | succ remaining ih =>
    by_cases hnil : newReferences seen frontier = []
    · obtain ⟨j, -, hreach⟩ := hr
      exact .inl (h.saturated hnil hreach)
    have e : k + (remaining + 1) = k + 1 + remaining := by omega
    rw [rounds_succ_cons hnil, List.flatten_cons, List.mem_append, ← or_assoc, ← List.mem_append]
    exact ih (h.round (by omega) hscan hnil) (e ▸ hscan) (e ▸ hr)

theorem foldl_merge_ofReferences (done : List Reference) (rs : List (List Reference)) :
    rs.foldl (fun m refs => m.merge (.ofReferences refs)) (RuleMap.ofReferences done) =
      .ofReferences (done ++ rs.flatten) := by
  induction rs generalizing done with
  | nil => simp
  | cons refs rs ih =>
    rw [List.foldl_cons, RuleMap.merge_ofReferences, ih, List.flatten_cons, List.append_assoc]

/-! ## The search -/

theorem roundCount_pos (options : Options) : 0 < options.roundCount := by
  unfold Options.roundCount
  omega

/-- The references of each round of a run. -/
def roundReferences (load : Loader) (options : Options) (rules : RuleMap) (targets corpus : List Path) :
    List (List Reference) :=
  rounds (Pass.records load options.scan corpus) options.roundCount []
    (Pass.records load options.scan targets rules)

theorem scanPasses_outcome (load : Loader) (options : Options) (rules : RuleMap) (targets corpus : List Path) :
    (scanPasses load options rules targets corpus).outcome = .ok
      { records := Pass.records load options.scan targets rules ++
          (roundReferences load options rules targets corpus).flatMap fun refs =>
            Pass.records load options.scan corpus (.ofReferences refs)
        pendingRules := .ofReferences (roundReferences load options rules targets corpus).flatten
        passes := Pass.stats load options.scan 1 targets rules ::
          (roundReferences load options rules targets corpus).map fun refs =>
            Pass.stats load options.scan 2 corpus (.ofReferences refs) } := by
  rw [scanPasses, outcome_bind_of_ok (outcome_report _), outcome_bind_of_ok (Pass.outcome_scan 1 targets rules),
    propagate_outcome (Pass.outcome_scan 2 corpus)]
  have hmerge := foldl_merge_ofReferences [] (roundReferences load options rules targets corpus)
  rw [List.nil_append] at hmerge
  rw [← hmerge]
  rfl

theorem scanPasses_events (load : Loader) (options : Options) (rules : RuleMap) (targets corpus : List Path) :
    (scanPasses load options rules targets corpus).events =
      .passStarted 1 targets.length :: (Pass.scan load options.scan 1 targets rules).events ++
        roundEvents load options corpus 1 (roundReferences load options rules targets corpus) ++
        if roundReferences load options rules targets corpus = [] then [.noReferencedMethods] else [] := by
  have hnone : (1 = 1 ∧ 0 < options.roundCount ∧ roundReferences load options rules targets corpus = []) ↔
      roundReferences load options rules targets corpus = [] := by
    simp [roundCount_pos]
  rw [scanPasses, events_bind_of_ok (outcome_report _), events_bind_of_ok (Pass.outcome_scan 1 targets rules),
    propagate_events Nat.one_pos, ← roundReferences, if_congr hnone rfl rfl]
  simp [Logged.report]

theorem run_pendingRules {result : Analysis} (h : (run load options rules targets corpus).outcome = .ok result) :
    result.pendingRules = .ofReferences (roundReferences load options rules targets corpus).flatten := by
  rw [run, outcome_bind_of_ok (scanPasses_outcome load options rules targets corpus),
    outcome_bind_of_ok (outcome_report _)] at h
  obtain ⟨⟨records, stats⟩, -, h⟩ := bind_eq_ok.1 h
  rw [outcome_bind_of_ok (outcome_report _)] at h
  cases h
  rfl

/-- Round `k` is for the references reached in `k` steps and not in fewer. -/
theorem mem_roundReferences (hscan : ScansSucceed load options rules targets corpus options.roundCount) {k : Nat}
    {refs : List Reference} (hk : (roundReferences load options rules targets corpus)[k]? = some refs)
    {r : Reference} :
    r ∈ refs ↔ ReachedIn load options rules targets corpus k r ∧
      ∀ j < k, ¬ ReachedIn load options rules targets corpus j r := by
  have hscan' : ScansSucceed load options rules targets corpus (0 + options.roundCount) := by rwa [Nat.zero_add]
  obtain ⟨seen, frontier, h, rfl⟩ := Level.zero.getElem?_rounds hscan' hk
  rw [Nat.zero_add] at h
  exact h.mem_new

theorem exists_round_iff (hscan : ScansSucceed load options rules targets corpus options.roundCount)
    {r : Reference} :
    (∃ refs ∈ roundReferences load options rules targets corpus, r ∈ refs) ↔
      ReachedWithin load options rules targets corpus options.roundCount r := by
  constructor
  · rintro ⟨refs, hrefs, hr⟩
    obtain ⟨k, hget⟩ := List.mem_iff_getElem?.1 hrefs
    have hk : k < (roundReferences load options rules targets corpus).length :=
      (List.getElem?_eq_some_iff.1 hget).1
    have hlen := length_rounds_le (Pass.records load options.scan corpus) options.roundCount []
      (Pass.records load options.scan targets rules)
    exact ⟨k, Nat.lt_of_lt_of_le hk hlen, ((mem_roundReferences hscan hget).1 hr).1⟩
  · intro hr
    have hscan' : ScansSucceed load options rules targets corpus (0 + options.roundCount) := by rwa [Nat.zero_add]
    have hmem := Level.zero.mem_rounds hscan' (by rwa [Nat.zero_add])
    simpa [roundReferences] using hmem

/-- A reference is in no two rounds. -/
theorem existsUnique_round (hscan : ScansSucceed load options rules targets corpus options.roundCount)
    {r : Reference} (hr : ReachedWithin load options rules targets corpus options.roundCount r) :
    ∃! k : Nat, ∃ refs, (roundReferences load options rules targets corpus)[k]? = some refs ∧ r ∈ refs := by
  obtain ⟨refs, hrefs, hmem⟩ := (exists_round_iff hscan).2 hr
  obtain ⟨k, hk⟩ := List.mem_iff_getElem?.1 hrefs
  refine ⟨k, ⟨refs, hk, hmem⟩, ?_⟩
  rintro k' ⟨refs', hk', hmem'⟩
  have h := (mem_roundReferences hscan hk).1 hmem
  have h' := (mem_roundReferences hscan hk').1 hmem'
  rcases Nat.lt_trichotomy k' k with hlt | heq | hlt
  · exact absurd h'.1 (h.2 k' hlt)
  · exact heq
  · exact absurd h.1 (h'.2 k hlt)

/-- **Propagation is a breadth-first search** of as many levels as there are
rounds, for all rules, targets and corpora and whatever files fail to load,
if no scan of a file that loads fails. The run reports its rounds, each a
scan of the corpus with the rules for the references of the round. Its
records before the look-up of names are those of the targets and the call
records of every reference reached in fewer steps than there are rounds; each
of these references is in exactly one round, the one numbered by its least
number of steps; and the pending rules are those of all rounds, in order. -/
theorem scanPasses_breadth_first (load : Loader) (options : Options) (rules : RuleMap) (targets corpus : List Path)
    (hscan : ScansSucceed load options rules targets corpus options.roundCount) :
    ∃ (a : Analysis) (processed : List (List Reference)),
      (scanPasses load options rules targets corpus).outcome = .ok a ∧
      (scanPasses load options rules targets corpus).events =
        .passStarted 1 targets.length :: (Pass.scan load options.scan 1 targets rules).events ++
          roundEvents load options corpus 1 processed ++ (if processed = [] then [.noReferencedMethods] else []) ∧
      (∀ record, record ∈ a.records ↔ IsTargetRecord load options rules targets record ∨
        ∃ r, ReachedWithin load options rules targets corpus options.roundCount r ∧
          IsCallRecord load options corpus r record) ∧
      (∀ r, (∃ refs ∈ processed, r ∈ refs) ↔
        ReachedWithin load options rules targets corpus options.roundCount r) ∧
      (∀ r, ReachedWithin load options rules targets corpus options.roundCount r →
        ∃! k : Nat, ∃ refs, processed[k]? = some refs ∧ r ∈ refs) ∧
      (∀ (k : Nat) refs, processed[k]? = some refs → ∀ r, r ∈ refs ↔
        ReachedIn load options rules targets corpus k r ∧
          ∀ j < k, ¬ ReachedIn load options rules targets corpus j r) ∧
      a.pendingRules = .ofReferences processed.flatten ∧
      ∀ result, (run load options rules targets corpus).outcome = .ok result →
        result.pendingRules = .ofReferences processed.flatten := by
  refine ⟨_, roundReferences load options rules targets corpus, scanPasses_outcome load options rules targets corpus,
    scanPasses_events load options rules targets corpus, fun record => ?_, fun r => exists_round_iff hscan,
    fun r hr => existsUnique_round hscan hr, fun k refs hk r => mem_roundReferences hscan hk, rfl,
    fun result h => run_pendingRules h⟩
  -- The records of a round are the call records of its references.
  have hround : ∀ refs ∈ roundReferences load options rules targets corpus,
      (record ∈ Pass.records load options.scan corpus (.ofReferences refs) ↔
        ∃ r ∈ refs, IsCallRecord load options corpus r record) := by
    intro refs hrefs
    simp only [isCallRecord_iff]
    exact Pass.mem_records_ofReferences (ne_nil_of_mem_rounds hrefs) fun r hr =>
      hscan r ((exists_round_iff hscan).1 ⟨refs, hrefs, hr⟩)
  rw [List.mem_append, isTargetRecord_iff, List.mem_flatMap]
  refine or_congr_right ⟨?_, ?_⟩
  · rintro ⟨refs, hrefs, hrecord⟩
    obtain ⟨r, hr, hcall⟩ := (hround refs hrefs).1 hrecord
    exact ⟨r, (exists_round_iff hscan).1 ⟨refs, hrefs, hr⟩, hcall⟩
  · rintro ⟨r, hr, hcall⟩
    obtain ⟨refs, hrefs, hmem⟩ := (exists_round_iff hscan).2 hr
    exact ⟨refs, hrefs, (hround refs hrefs).2 ⟨r, hmem, hcall⟩⟩

end

/-! ### Two methods that hand a parameter to each other -/

namespace Mutual

/-- `class R { A(a) { B(a); } B(b) { A(b); X(b); } }`, where a name is one
character of the source. -/
def parse : ParseTree :=
  let name (field : Option String) (i : Nat) := ParseTree.node ⟨"identifier", field, i, i + 1, true⟩ []
  let parameters (i : Nat) := ParseTree.node ⟨"parameter_list", some "parameters", i, i + 1, true⟩
    [.node ⟨"parameter", none, i, i + 1, true⟩ [name (some "name") i]]
  let call (callee argument : Nat) := ParseTree.node ⟨"invocation_expression", none, callee, callee + 1, true⟩
    [name (some "function") callee, .node ⟨"argument_list", some "arguments", argument, argument + 1, true⟩
      [.node ⟨"argument", none, argument, argument + 1, true⟩ [name none argument]]]
  let method (i parameter : Nat) (calls : List ParseTree) :=
    ParseTree.node ⟨"method_declaration", none, 0, 6, true⟩
      [name (some "name") i, parameters parameter, .node ⟨"block", some "body", 0, 6, true⟩ calls]
  .node ⟨"compilation_unit", none, 0, 6, true⟩
    [.node ⟨"class_declaration", none, 0, 6, true⟩
      [name (some "name") 0, method 1 4 [call 2 4], method 2 5 [call 1 5, call 3 5]]]

def file : Path := .ofString "R.cs"

def load : Loader := fun path => pure (.ofParseTree path "RABXab".toUTF8.data parse false)

def rules : RuleMap := .ofList [{ key := "X", methodName := "X", index := 0 }]

def options : Options := { rounds := 2 }

/-- The parameter of method `A` or `B`. -/
def parameterOf (method : String) : Reference := ⟨["R"], method, 0, none⟩

def recordOf (method : String) : Record :=
  { file, line := 1, text := .ofString (parameterOf method).encode, pending := some (parameterOf method) }

theorem target_records : Pass.records load options.scan [file] rules = [recordOf "B"] := by decide +kernel

theorem call_records_B :
    Pass.records load options.scan [file] (.ofReferences [parameterOf "B"]) = [recordOf "A"] := by decide +kernel

theorem call_records_A :
    Pass.records load options.scan [file] (.ofReferences [parameterOf "A"]) = [recordOf "B"] := by decide +kernel

theorem reached {k : Nat} {r : Reference} (h : ReachedIn load options rules [file] [file] k r) :
    r = parameterOf "A" ∨ r = parameterOf "B" := by
  induction h with
  | start hrecord hr =>
    rw [isTargetRecord_iff, target_records, List.mem_singleton] at hrecord
    subst hrecord
    exact .inr (Option.some.inj hr).symm
  | step _ hcall hr ih =>
    rw [isCallRecord_iff] at hcall
    rcases ih with rfl | rfl
    · rw [call_records_A, List.mem_singleton] at hcall
      subst hcall
      exact .inr (Option.some.inj hr).symm
    · rw [call_records_B, List.mem_singleton] at hcall
      subst hcall
      exact .inl (Option.some.inj hr).symm

theorem scans_succeed : ScansSucceed load options rules [file] [file] options.roundCount := by
  have hscan : ∀ method ∈ ["A", "B"], ((SyntaxTree.ofParseTree file "RABXab".toUTF8.data parse false).scan
      options.scan (.ofReferences [parameterOf method])).Succeeds := by decide +kernel
  rintro r ⟨k, -, hr⟩ path hpath t ht
  rw [List.mem_singleton.1 hpath, load, outcome_pure, Except.ok.injEq] at ht
  subst ht
  rcases reached hr with rfl | rfl
  · exact hscan "A" (by simp)
  · exact hscan "B" (by simp)

theorem reachedWithin : ReachedWithin load options rules [file] [file] options.roundCount (parameterOf "A") := by
  have htarget : IsTargetRecord load options rules [file] (recordOf "B") := by
    rw [isTargetRecord_iff, target_records]
    simp
  have hcall : IsCallRecord load options [file] (parameterOf "B") (recordOf "A") := by
    rw [isCallRecord_iff, call_records_B]
    simp
  exact ⟨1, by decide, .step (.start htarget rfl) hcall rfl⟩

/-- The cycle is cut after two rounds: the parameter of `A` has one round, and
the call of `A`, which leads back to `B`, is among the records. -/
theorem breadth_first :
    ScansSucceed load options rules [file] [file] options.roundCount ∧
      ∃ (a : Analysis) (processed : List (List Reference)),
        (scanPasses load options rules [file] [file]).outcome = .ok a ∧
        a.pendingRules = .ofReferences processed.flatten ∧ recordOf "B" ∈ a.records ∧
        ∃! k : Nat, ∃ refs, processed[k]? = some refs ∧ parameterOf "A" ∈ refs := by
  obtain ⟨a, processed, ha, -, hrecords, -, hunique, -, hrules, -⟩ :=
    scanPasses_breadth_first load options rules [file] [file] scans_succeed
  have hcall : IsCallRecord load options [file] (parameterOf "A") (recordOf "B") := by
    rw [isCallRecord_iff, call_records_A]
    simp
  exact ⟨scans_succeed, a, processed, ha, hrules, (hrecords _).2 (.inr ⟨_, reachedWithin, hcall⟩),
    hunique _ reachedWithin⟩

end Mutual

end CommandTrace.Analysis
