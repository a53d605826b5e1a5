/-
What a scan finds, said without the order of the work.

At a call, a rule matches if it stands under one of the call's keys and its
namespace is known there (`Matches`). Of several rules for the same argument
and guard (`Rule.slot`) only the first is taken (`matchingRules_eq_ok`), but what
a rule gives depends on its argument alone (`slotRecords`), so nothing is lost:
`scan_succeeds` and `scan_contains` describe a scan by all rules that match. It
follows that a scan with a map that holds the rules of several maps (`HoldsAll`)
fails exactly when a scan with one of them does, and otherwise finds what they
find together: `HoldsAll.scan_joins`. A single record is one of an argument that a
rule makes the scan examine (`Examines`), and what an argument can give is
`RecordOf`: its own value or text, or what it was traced to.
-/
import CommandTrace.CallSite.Scan
import CommandTrace.Proofs.Logged
import CommandTrace.Proofs.RuleMap

namespace CommandTrace

/-- The argument that a rule points at, and its guard. -/
def Rule.slot (r : Rule) : Int × Option String :=
  (r.index, r.space)

theorem Rule.sameSlot_iff {r r' : Rule} : r.sameSlot r' = true ↔ r.slot = r'.slot := by
  simp [sameSlot, slot]

namespace SyntaxTree

open Logged

variable (t : SyntaxTree)

/-! ## Calls and rules -/

/-- The keys of a node; one that is no call has none. -/
def callKeys (call : Nat) : Except Fault (List String) :=
  match t.kind call with
  | .invocation => t.invocationKeys t.declarations call
  | .objectCreation =>
    match t.childByField call "type" with
    | none => .ok []
    | some typeNode => .ok (t.creationKeys typeNode)
  | _ => .ok []

/-- The namespace of a rule, where it has one, is known at a call. -/
def guardHolds (call : Nat) (rule : Rule) : Bool :=
  (rule.space.filter (· ≠ "")).all fun space => t.namespaceReferenced space call

/-- A call with the given keys matches a rule of a map. -/
def Matches (m : RuleMap) (call : Nat) (keys : List String) (rule : Rule) : Prop :=
  ∃ key ∈ keys, rule ∈ m.lookup key ∧ t.guardHolds call rule = true

/-- The records of the argument at an index. -/
def argumentSlot (arguments : List Nat) (recordsOf : Nat → Logged (List Record)) (index : Int) :
    Logged (List Record) := do
  match ← argumentAt arguments index with
  | some argument => recordsOf argument
  | none => return []

/-- The records that a rule for the argument at an index gives at a call. -/
def slotRecords (options : ScanOptions) (call : Nat) (index : Int) : Logged (List Record) :=
  match t.kind call with
  | .invocation =>
    argumentSlot (t.argumentExpressions (t.childByField call "arguments"))
      (fun argument => t.argumentRecords options false argument (t.line call) call) index
  | .objectCreation => do
    let list := t.childByField call "arguments"
    let fromArgument ← argumentSlot (t.argumentExpressions list) (fun argument =>
      t.argumentRecords options true argument (t.line ((t.parent argument).getD argument))
        (list.getD call)) index
    let fromInitializer ← t.initializerRecords options call
    return fromArgument ++ fromInitializer
  | _ => pure []

variable {t}

/-! ## The rules that are taken -/

/-- A rule is taken if its guard holds, unless one for its slot has been. -/
theorem outcome_addMatch (call : Nat) (matched : List Rule) (key : String) (rule : Rule) :
    (t.addMatch call matched (key, rule)).outcome =
      .ok (if matched.any rule.sameSlot then matched
        else if t.guardHolds call rule then matched ++ [rule] else matched) := by
  simp only [addMatch, guardHolds]
  split
  · rfl
  split
  · next h => simp only [h, Option.all_none, if_true, outcome_pure]
  · next space h =>
    simp only [h, Option.all_some]
    split
    · rfl
    · exact outcome_bind_of_ok (outcome_report _) _

theorem addMatch_eq_ok (call : Nat) (matched : List Rule) (key : String) (rule : Rule) :
    ∃ next, (t.addMatch call matched (key, rule)).outcome = .ok next ∧
      (∀ taken ∈ next, taken ∈ matched ∨ taken = rule ∧ t.guardHolds call rule = true) ∧
      next.map Rule.slot =
        if t.guardHolds call rule then addNew (matched.map Rule.slot) rule.slot else matched.map Rule.slot := by
  have hany : matched.any rule.sameSlot = true ↔ rule.slot ∈ matched.map Rule.slot := by
    simp [List.any_eq_true, Rule.sameSlot_iff, eq_comm (a := rule.slot)]
  refine ⟨_, outcome_addMatch call matched key rule, ?_⟩
  by_cases hmem : rule.slot ∈ matched.map Rule.slot
  · rw [if_pos (hany.2 hmem), addNew_of_mem hmem, ite_self]
    exact ⟨fun _ h => .inl h, rfl⟩
  · rw [if_neg (mt hany.1 hmem), addNew_of_not_mem hmem]
    split
    · next hguard =>
      rw [List.map_append, List.map_singleton]
      refine ⟨fun taken htaken => ?_, rfl⟩
      rcases List.mem_append.1 htaken with h | h
      · exact .inl h
      · exact .inr ⟨List.mem_singleton.1 h, hguard⟩
    · exact ⟨fun _ h => .inl h, rfl⟩

/-- Going through candidates at a call takes only rules whose guard holds, and
one for each slot of these. -/
theorem foldlM_addMatch (call : Nat) (candidates : List (String × Rule)) (matched : List Rule) :
    ∃ rules, (candidates.foldlM (t.addMatch call) matched).outcome = .ok rules ∧
      (∀ rule ∈ rules, rule ∈ matched ∨ rule ∈ (candidates.map Prod.snd).filter (t.guardHolds call)) ∧
      rules.map Rule.slot = union (matched.map Rule.slot)
        (((candidates.map Prod.snd).filter (t.guardHolds call)).map Rule.slot) := by
  induction candidates generalizing matched with
  | nil => exact ⟨matched, rfl, fun _ h => .inl h, rfl⟩
  | cons candidate candidates ih =>
    obtain ⟨key, rule⟩ := candidate
    obtain ⟨next, hnext, honly, hslots⟩ := addMatch_eq_ok (t := t) call matched key rule
    obtain ⟨rules, hrules, honly', hslots'⟩ := ih next
    refine ⟨rules, by rw [List.foldlM_cons, outcome_bind_of_ok hnext, hrules], fun taken htaken => ?_, ?_⟩
    · rcases honly' taken htaken with h | h
      · rcases honly taken h with h | ⟨rfl, hguard⟩
        · exact .inl h
        · exact .inr (List.mem_filter.2 ⟨List.mem_cons_self, hguard⟩)
      · obtain ⟨hmem, hguard⟩ := List.mem_filter.1 h
        exact .inr (List.mem_filter.2 ⟨List.mem_cons_of_mem _ hmem, hguard⟩)
    · rw [hslots', hslots, List.map_cons, List.filter_cons]
      split
      · rw [List.map_cons, union_cons]
      · rfl

/-- The rules taken at a call match it, and each slot of a rule that matches is
taken once. -/
theorem matchingRules_eq_ok (m : RuleMap) (call : Nat) (keys : List String) :
    ∃ rules, (t.matchingRules m call keys).outcome = .ok rules ∧
      (∀ rule ∈ rules, t.Matches m call keys rule) ∧ (rules.map Rule.slot).Nodup ∧
      ∀ rule, t.Matches m call keys rule → rule.slot ∈ rules.map Rule.slot := by
  obtain ⟨rules, hrules, honly, hslots⟩ := foldlM_addMatch (t := t) call
    (keys.flatMap fun key => (m.lookup key).map fun rule => (key, rule)) []
  have hmatches : ∀ rule, rule ∈ ((keys.flatMap fun key =>
      (m.lookup key).map fun rule => (key, rule)).map Prod.snd).filter (t.guardHolds call) ↔
        t.Matches m call keys rule := by
    intro rule
    simp [Matches, ← and_assoc, exists_and_right]
  refine ⟨rules, hrules, fun rule hrule => ?_, ?_, fun rule hmatch => ?_⟩
  · exact (hmatches rule).1 ((honly rule hrule).resolve_left List.not_mem_nil)
  · rw [hslots]
    exact nodup_union List.nodup_nil
  · rw [hslots, mem_union]
    exact .inr (List.mem_map_of_mem ((hmatches rule).2 hmatch))

/-! ## One call -/

/-- The records of one node. -/
def scanSite (t : SyntaxTree) (options : ScanOptions) (m : RuleMap) (call : Nat) : Logged (List Record) :=
  match t.kind call with
  | .invocation => t.scanInvocation options m t.declarations call
  | .objectCreation => t.scanCreation options m call
  | _ => pure []

theorem scanInvocation_joins {options : ScanOptions} {m : RuleMap} {call : Nat} {keys : List String}
    {rules : List Rule} (hkeys : t.invocationKeys t.declarations call = .ok keys)
    (hrules : (t.matchingRules m call keys).outcome = .ok rules) :
    (t.scanInvocation options m t.declarations call).Joins (· ∈ rules) fun rule =>
      argumentSlot (t.argumentExpressions (t.childByField call "arguments"))
        (fun argument => t.argumentRecords options false argument (t.line call) call) rule.index := by
  refine (gather_joins _ rules).congr ?_
  rw [scanInvocation, outcome_bind_of_ok (a := keys) hkeys, outcome_bind_of_ok hrules]
  rfl

/-- The records of a creation for an argument of its list. -/
def creationRecords (t : SyntaxTree) (options : ScanOptions) (call argument : Nat) : Logged (List Record) :=
  t.argumentRecords options true argument (t.line ((t.parent argument).getD argument))
    ((t.childByField call "arguments").getD call)

/-- Where no rule is taken, a creation gives nothing, whatever its
initializer. -/
theorem outcome_scanCreation_nil {options : ScanOptions} {m : RuleMap} {call typeNode : Nat}
    (htype : t.childByField call "type" = some typeNode)
    (hrules : (t.matchingRules m call (t.creationKeys typeNode)).outcome = .ok []) :
    (t.scanCreation options m call).outcome = .ok [] := by
  rw [scanCreation, htype]
  exact outcome_bind_of_ok hrules _

/-- Else it gives the records of the arguments and then, once, those of the
initializer. -/
theorem outcome_scanCreation_cons {options : ScanOptions} {m : RuleMap} {call typeNode : Nat} {first : Rule}
    {others : List Rule} (htype : t.childByField call "type" = some typeNode)
    (hrules : (t.matchingRules m call (t.creationKeys typeNode)).outcome = .ok (first :: others)) :
    (t.scanCreation options m call).outcome = (do
      let l ← ruleRecords (t.argumentExpressions (t.childByField call "arguments"))
        (t.creationRecords options call) (first :: others)
      let l' ← t.initializerRecords options call
      return l ++ l' : Logged (List Record)).outcome := by
  rw [scanCreation, htype]
  exact outcome_bind_of_ok hrules _

theorem scanCreation_joins {options : ScanOptions} {m : RuleMap} {call typeNode : Nat} {rules : List Rule}
    (htype : t.childByField call "type" = some typeNode)
    (hrules : (t.matchingRules m call (t.creationKeys typeNode)).outcome = .ok rules) :
    (t.scanCreation options m call).Joins (· ∈ rules) fun rule => do
      let fromArgument ← argumentSlot (t.argumentExpressions (t.childByField call "arguments"))
        (t.creationRecords options call) rule.index
      let fromInitializer ← t.initializerRecords options call
      return fromArgument ++ fromInitializer := by
  cases hr : rules with
  | nil => exact (gather_joins _ []).congr (outcome_scanCreation_nil htype (hr ▸ hrules))
  | cons first others =>
    refine ((gather_joins _ (first :: others)).append (a := first) (by simp)).congr ?_
    exact outcome_scanCreation_cons htype (hr ▸ hrules)

/-- A call gives the records of all rules that match it. Only its argument
decides what a rule gives, so those that are not taken add nothing. -/
theorem scanSite_joins {options : ScanOptions} {m : RuleMap} {call : Nat} {keys : List String}
    (hkeys : t.callKeys call = .ok keys) :
    (t.scanSite options m call).Joins (t.Matches m call keys) fun rule =>
      t.slotRecords options call rule.index := by
  obtain ⟨rules, hrules, honly, -, hall⟩ := matchingRules_eq_ok (t := t) m call keys
  have hempty : keys = [] → rules = [] := by
    rintro rfl
    simpa [matchingRules] using hrules.symm
  have htaken : (t.scanSite options m call).Joins (· ∈ rules) fun rule => t.slotRecords options call rule.index := by
    cases hk : t.kind call with
    | invocation =>
      simp only [callKeys, hk] at hkeys
      simpa only [scanSite, slotRecords, hk] using scanInvocation_joins hkeys hrules
    | objectCreation =>
      simp only [callKeys, hk] at hkeys
      cases htype : t.childByField call "type" with
      | some typeNode =>
        simp only [htype, Except.ok.injEq] at hkeys
        subst hkeys
        simp only [scanSite, slotRecords, hk]
        exact scanCreation_joins htype hrules
      | none =>
        simp only [htype, Except.ok.injEq] at hkeys
        refine (gather_joins _ rules).congr ?_
        simp [scanSite, hk, scanCreation, htype, hempty hkeys.symm, gather]
    | _ =>
      simp only [callKeys, hk, Except.ok.injEq] at hkeys
      refine (gather_joins _ rules).congr ?_
      simp [scanSite, hk, hempty hkeys.symm, gather]
  refine htaken.extend honly fun rule hmatch => ?_
  obtain ⟨taken, hmem, hslot⟩ := List.mem_map.1 (hall rule hmatch)
  have hindex : taken.index = rule.index := congrArg Prod.fst hslot
  exact ⟨taken, hmem, by rw [hindex]⟩

theorem scanSite_succeeds_keys {options : ScanOptions} {m : RuleMap} {call : Nat}
    (h : (t.scanSite options m call).Succeeds) : ∃ keys, t.callKeys call = .ok keys := by
  cases hk : t.kind call with
  | invocation =>
    simp only [scanSite, hk, scanInvocation, bind_succeeds] at h
    obtain ⟨keys, hkeys, -⟩ := h
    exact ⟨keys, by simpa only [callKeys, hk, outcome_lift] using hkeys⟩
  | objectCreation => cases htype : t.childByField call "type" <;> simp [callKeys, hk, htype]
  | _ => simp [callKeys, hk]

/-! ## The whole file -/

theorem scan_eq (options : ScanOptions) {m : RuleMap} (hm : m.size ≠ 0) :
    t.scan options m = gather (t.scanSite options m) (t.descendants root) := by
  rw [scan, if_neg hm]
  rfl

theorem scan_empty (options : ScanOptions) {m : RuleMap} (hm : m.size = 0) : t.scan options m = pure [] := by
  rw [scan, if_pos hm]

theorem size_ne_zero_of_matches {m : RuleMap} {call : Nat} {keys : List String} {rule : Rule}
    (h : t.Matches m call keys rule) : m.size ≠ 0 := by
  intro hm
  obtain ⟨key, -, hrule, -⟩ := h
  rw [RuleMap.lookup_of_size_eq_zero hm] at hrule
  cases hrule

/-- A scan succeeds if it has nothing to look for, or if the keys of every
node and the records of every rule that matches it can be had. -/
theorem scan_succeeds {options : ScanOptions} {m : RuleMap} :
    (t.scan options m).Succeeds ↔ m.size = 0 ∨ ∀ call ∈ t.descendants root, ∃ keys, t.callKeys call = .ok keys ∧
      ∀ rule, t.Matches m call keys rule → (t.slotRecords options call rule.index).Succeeds := by
  by_cases hm : m.size = 0
  · rw [scan_empty options hm]
    exact ⟨fun _ => .inl hm, fun _ => pure_succeeds _⟩
  rw [scan_eq options hm, gather_succeeds, or_iff_right hm]
  refine forall₂_congr fun call _ => ⟨fun h => ?_, ?_⟩
  · obtain ⟨keys, hkeys⟩ := scanSite_succeeds_keys h
    exact ⟨keys, hkeys, (scanSite_joins hkeys).1.1 h⟩
  · rintro ⟨keys, hkeys, h⟩
    exact (scanSite_joins hkeys).1.2 h

/-- A scan that succeeds finds the records of every rule that matches a
node. -/
theorem scan_contains {options : ScanOptions} {m : RuleMap} {record : Record} :
    (t.scan options m).Contains record ↔ (t.scan options m).Succeeds ∧
      ∃ call ∈ t.descendants root, ∃ keys, t.callKeys call = .ok keys ∧
        ∃ rule, t.Matches m call keys rule ∧ (t.slotRecords options call rule.index).Contains record := by
  by_cases hm : m.size = 0
  · rw [scan_empty options hm, pure_contains]
    constructor
    · exact fun h => absurd h (List.not_mem_nil)
    · rintro ⟨-, call, -, keys, -, rule, hmatch, -⟩
      exact absurd hm (size_ne_zero_of_matches hmatch)
  rw [scan_eq options hm, (gather_joins _ _).2]
  refine and_congr_right fun hs => exists_congr fun call => and_congr_right fun hcall => ⟨fun h => ?_, ?_⟩
  · obtain ⟨keys, hkeys⟩ := scanSite_succeeds_keys h.succeeds
    exact ⟨keys, hkeys, ((scanSite_joins hkeys).2 record).1 h |>.2⟩
  · rintro ⟨keys, hkeys, h⟩
    exact ((scanSite_joins hkeys).2 record).2 ⟨gather_succeeds.1 hs call hcall, h⟩

/-! ## Maps put together -/

variable {ι : Type}

/-- A map holds the rules of the maps `ms i` with `P i`. -/
structure HoldsAll (m : RuleMap) (P : ι → Prop) (ms : ι → RuleMap) : Prop where
  lookup : ∀ key rule, rule ∈ m.lookup key ↔ ∃ i, P i ∧ rule ∈ (ms i).lookup key
  size : m.size = 0 ↔ ∀ i, P i → (ms i).size = 0

theorem HoldsAll.matches_iff {m : RuleMap} {P : ι → Prop} {ms : ι → RuleMap} (h : HoldsAll m P ms) {call : Nat}
    {keys : List String} {rule : Rule} :
    t.Matches m call keys rule ↔ ∃ i, P i ∧ t.Matches (ms i) call keys rule := by
  constructor
  · rintro ⟨key, hkey, hrule, hguard⟩
    obtain ⟨i, hi, hrule⟩ := (h.lookup key rule).1 hrule
    exact ⟨i, hi, key, hkey, hrule, hguard⟩
  · rintro ⟨i, hi, key, hkey, hrule, hguard⟩
    exact ⟨key, hkey, (h.lookup key rule).2 ⟨i, hi, hrule⟩, hguard⟩

theorem HoldsAll.scan_succeeds {m : RuleMap} {P : ι → Prop} {ms : ι → RuleMap} (h : HoldsAll m P ms)
    {options : ScanOptions} : (t.scan options m).Succeeds ↔ ∀ i, P i → (t.scan options (ms i)).Succeeds := by
  simp only [SyntaxTree.scan_succeeds]
  constructor
  · rintro (hm | hm) i hi
    · exact .inl (h.size.1 hm i hi)
    · refine .inr fun call hcall => ?_
      obtain ⟨keys, hkeys, hrules⟩ := hm call hcall
      exact ⟨keys, hkeys, fun rule hmatch => hrules rule (h.matches_iff.2 ⟨i, hi, hmatch⟩)⟩
  · intro hall
    by_cases hm : m.size = 0
    · exact .inl hm
    -- One of the maps has a rule, so its scan has looked at every key.
    obtain ⟨i, hi, hne⟩ : ∃ i, P i ∧ (ms i).size ≠ 0 := by
      by_contra hnone
      exact hm (h.size.2 fun i hi => by_contra fun hne => hnone ⟨i, hi, hne⟩)
    refine .inr fun call hcall => ?_
    obtain ⟨keys, hkeys, -⟩ := (or_iff_right hne).1 (hall i hi) call hcall
    refine ⟨keys, hkeys, fun rule hmatch => ?_⟩
    obtain ⟨j, hj, hmatch⟩ := h.matches_iff.1 hmatch
    obtain ⟨keys', hkeys', hrules⟩ := (or_iff_right (size_ne_zero_of_matches hmatch)).1 (hall j hj) call hcall
    rw [hkeys, Except.ok.injEq] at hkeys'
    exact hrules rule (hkeys' ▸ hmatch)

/-- **A scan with several maps at once** puts together the scans with each of
them. -/
theorem HoldsAll.scan_joins {m : RuleMap} {P : ι → Prop} {ms : ι → RuleMap} (h : HoldsAll m P ms)
    (options : ScanOptions) : (t.scan options m).Joins P fun i => t.scan options (ms i) := by
  refine ⟨h.scan_succeeds, fun record => ?_⟩
  rw [scan_contains]
  refine and_congr_right fun hs => ⟨?_, ?_⟩
  · rintro ⟨call, hcall, keys, hkeys, rule, hmatch, hrecord⟩
    obtain ⟨i, hi, hmatch⟩ := h.matches_iff.1 hmatch
    exact ⟨i, hi, scan_contains.2 ⟨h.scan_succeeds.1 hs i hi, call, hcall, keys, hkeys, rule, hmatch, hrecord⟩⟩
  · rintro ⟨i, hi, hrecord⟩
    obtain ⟨-, call, hcall, keys, hkeys, rule, hmatch, hrecord⟩ := scan_contains.1 hrecord
    exact ⟨call, hcall, keys, hkeys, rule, h.matches_iff.2 ⟨i, hi, hmatch⟩, hrecord⟩

theorem holdsAll_ofReferences (refs : List Reference) :
    HoldsAll (RuleMap.ofReferences refs) (· ∈ refs) fun r => RuleMap.ofReferences [r] :=
  ⟨fun _ _ => RuleMap.mem_lookup_ofReferences, RuleMap.size_ofReferences_eq_zero⟩

/-! ## Single records -/

variable (t) in
/-- The expressions that rules may point at, with the line that their records
get: an argument of an invocation, with the line of the invocation; one of a
creation, with a line of its own; and what an initializer assigns. -/
inductive IsArgument : (expression line : Nat) → Prop
  | invocation {call expression : Nat} : t.kind call = .invocation →
      expression ∈ t.argumentExpressions (t.childByField call "arguments") → IsArgument expression (t.line call)
  | creation {call expression : Nat} : expression ∈ t.argumentExpressions (t.childByField call "arguments") →
      IsArgument expression (t.line ((t.parent expression).getD expression))
  | initializer {assignment expression : Nat} : t.isSimpleAssignment assignment = true →
      t.childByField assignment "right" = some expression → IsArgument expression (t.line assignment)

theorem mem_of_argumentAt {arguments : List Nat} {index : Int} {argument : Nat}
    (h : argumentAt arguments index = .ok (some argument)) : argument ∈ arguments := by
  unfold argumentAt at h
  split at h
  · cases h
  split at h
  · exact List.mem_of_getElem? (Except.ok.inj h)
  split at h
  · exact List.mem_of_getElem? (Except.ok.inj h)
  · cases h

theorem isArgument_of_propertyValue {options : ScanOptions} {assignment right : Nat}
    (h : t.propertyValue options assignment = some right) : t.IsArgument right (t.line assignment) := by
  unfold propertyValue at h
  split at h
  · next hsimple =>
    split at h
    · next left right' _ hright =>
      split at h
      · cases h
        exact .initializer hsimple hright
      · cases h
    · cases h
  · cases h

variable (t) in
/-- The expressions that a rule for the argument at an index makes a scan examine at
a call, with whether their text is kept, the line of their records and the node
that names are traced from. -/
inductive Examines (options : ScanOptions) (call : Nat) (index : Int) :
    (keepText : Bool) → (expression line start : Nat) → Prop
  | invocation {argument : Nat} : t.kind call = .invocation →
      argumentAt (t.argumentExpressions (t.childByField call "arguments")) index = .ok (some argument) →
      Examines options call index false argument (t.line call) call
  | creation {argument : Nat} : t.kind call = .objectCreation →
      argumentAt (t.argumentExpressions (t.childByField call "arguments")) index = .ok (some argument) →
      Examines options call index true argument (t.line ((t.parent argument).getD argument))
        ((t.childByField call "arguments").getD call)
  | initializer {initializer assignment right : Nat} : t.kind call = .objectCreation →
      (t.childByField call "initializer").or (t.childOfKind call [.initializer]) = some initializer →
      assignment ∈ t.namedChildren initializer → t.propertyValue options assignment = some right →
      Examines options call index true right (t.line assignment) call

theorem Examines.isArgument {options : ScanOptions} {call : Nat} {index : Int} {keepText : Bool}
    {expression line start : Nat} (h : t.Examines options call index keepText expression line start) :
    t.IsArgument expression line := by
  cases h with
  | invocation hk hargument => exact .invocation hk (mem_of_argumentAt hargument)
  | creation hk hargument => exact .creation (mem_of_argumentAt hargument)
  | initializer hk hinitializer hassignment hright => exact isArgument_of_propertyValue hright

theorem argumentSlot_contains {arguments : List Nat} {recordsOf : Nat → Logged (List Record)} {index : Int}
    {record : Record} :
    (argumentSlot arguments recordsOf index).Contains record ↔
      ∃ argument, argumentAt arguments index = .ok (some argument) ∧ (recordsOf argument).Contains record := by
  rw [argumentSlot, bind_contains]
  constructor
  · rintro ⟨_ | argument, hargument, h⟩
    · cases pure_contains.1 h
    · exact ⟨argument, hargument, h⟩
  · rintro ⟨argument, hargument, h⟩
    exact ⟨some argument, hargument, h⟩

theorem initializerRecords_contains {options : ScanOptions} {call : Nat} {record : Record} :
    (t.initializerRecords options call).Contains record ↔ (t.initializerRecords options call).Succeeds ∧
      ∃ initializer, (t.childByField call "initializer").or (t.childOfKind call [.initializer]) = some initializer ∧
        ∃ assignment ∈ t.namedChildren initializer, ∃ right, t.propertyValue options assignment = some right ∧
          (t.argumentRecords options true right (t.line assignment) call).Contains record := by
  unfold initializerRecords
  cases hinitializer : (t.childByField call "initializer").or (t.childOfKind call [.initializer]) with
  | none => simp [pure_contains]
  | some initializer =>
    simp only [(gather_joins _ _).2, Option.some.injEq, exists_eq_left']
    refine and_congr_right fun _ => exists_congr fun assignment => and_congr_right fun _ => ?_
    cases t.propertyValue options assignment with
    | none => simp [pure_contains]
    | some right => simp

/-- A rule gives at a call the records of what it makes the scan examine. -/
theorem slotRecords_contains {options : ScanOptions} {call : Nat} {index : Int} {record : Record} :
    (t.slotRecords options call index).Contains record ↔ (t.slotRecords options call index).Succeeds ∧
      ∃ keepText expression line start, t.Examines options call index keepText expression line start ∧
        (t.argumentRecords options keepText expression line start).Contains record := by
  constructor
  · intro h
    refine ⟨h.succeeds, ?_⟩
    unfold slotRecords at h
    split at h
    · next hk =>
      obtain ⟨argument, hargument, h⟩ := argumentSlot_contains.1 h
      exact ⟨_, _, _, _, .invocation hk hargument, h⟩
    · next hk =>
      rcases (append_contains.1 h).2 with h | h
      · obtain ⟨argument, hargument, h⟩ := argumentSlot_contains.1 h
        exact ⟨_, _, _, _, .creation hk hargument, h⟩
      · obtain ⟨-, initializer, hinitializer, assignment, hassignment, right, hright, h⟩ :=
          initializerRecords_contains.1 h
        exact ⟨_, _, _, _, .initializer hk hinitializer hassignment hright, h⟩
    · cases pure_contains.1 h
  · rintro ⟨hs, keepText, expression, line, start, hexamines, h⟩
    cases hexamines with
    | invocation hk hargument =>
      simp only [slotRecords, hk]
      exact argumentSlot_contains.2 ⟨expression, hargument, h⟩
    | creation hk hargument =>
      simp only [slotRecords, hk] at hs ⊢
      exact append_contains.2 ⟨append_succeeds.1 hs, .inl (argumentSlot_contains.2 ⟨expression, hargument, h⟩)⟩
    | initializer hk hinitializer hassignment hright =>
      simp only [slotRecords, hk] at hs ⊢
      have hboth := append_succeeds.1 hs
      exact append_contains.2 ⟨hboth, .inr (initializerRecords_contains.2
        ⟨hboth.2, _, hinitializer, _, hassignment, expression, hright, h⟩)⟩

/-- Every record of a scan is one of an argument. -/
theorem exists_argument_of_scan {options : ScanOptions} {m : RuleMap} {record : Record}
    (h : (t.scan options m).Contains record) :
    ∃ keepText expression line start, t.IsArgument expression line ∧
      (t.argumentRecords options keepText expression line start).Contains record := by
  obtain ⟨-, call, -, keys, -, rule, -, h⟩ := scan_contains.1 h
  obtain ⟨-, keepText, expression, line, start, hexamines, h⟩ := slotRecords_contains.1 h
  exact ⟨keepText, expression, line, start, hexamines.isArgument, h⟩

variable (t) in
/-- The records for a name that was traced to a resolution. -/
def tracedRecords (name : String) (line : Nat) (resolution : Resolution) : List Record :=
  if resolution.isEmpty then [{ file := t.path, line, text := .ofString name, isVariable := true }]
  else
    (if resolution.values.isEmpty then [] else [{ file := t.path, line, text := resolution.text }]) ++
      (resolution.pending.map fun reference =>
        { file := t.path, line, text := .ofString reference.encode, pending := some reference }) ++
      resolution.unresolved.map fun inner => { file := t.path, line, text := .ofString inner, isVariable := true }

theorem outcome_nameRecords {name : String} {start : Nat} {resolution : Resolution}
    (h : (t.trace name start).outcome = .ok resolution) (line : Nat) :
    (t.nameRecords name line start).outcome = .ok (t.tracedRecords name line resolution) := by
  rw [nameRecords, outcome_bind_of_ok h, tracedRecords]
  split
  · exact outcome_bind_of_ok (outcome_report _) _
  · exact outcome_bind_of_ok (outcome_gather_map (fun _ => outcome_bind_of_ok (outcome_report _) _) _) _

variable (t) in
/-- The records that an expression can give: the value of a literal; what a name
was traced to; and the text itself, of a name that was traced to nothing or of
an expression that cannot be traced. -/
inductive RecordOf (expression line start : Nat) : Record → Prop
  | literal {value : Text} : t.kind expression = .literal → t.literalValue expression = .ok value → value ≠ [] →
      RecordOf expression line start { file := t.path, line, text := value }
  | values {resolution : Resolution} : (t.trace (t.text expression) start).outcome = .ok resolution →
      resolution.values ≠ [] → RecordOf expression line start { file := t.path, line, text := resolution.text }
  | parameter {resolution : Resolution} {reference : Reference} :
      (t.trace (t.text expression) start).outcome = .ok resolution → reference ∈ resolution.pending →
      RecordOf expression line start
        { file := t.path, line, text := .ofString reference.encode, pending := some reference }
  | deadEnd {resolution : Resolution} {inner : String} :
      (t.trace (t.text expression) start).outcome = .ok resolution → inner ∈ resolution.unresolved →
      RecordOf expression line start { file := t.path, line, text := .ofString inner, isVariable := true }
  | kept : RecordOf expression line start
      { file := t.path, line, text := .ofString (t.text expression), isVariable := true }

theorem recordOf_of_nameRecords {expression line start : Nat} {record : Record}
    (h : (t.nameRecords (t.text expression) line start).Contains record) :
    t.RecordOf expression line start record := by
  obtain ⟨resolution, htrace, -⟩ := bind_contains.1 h
  have hmem := (contains_iff_mem (outcome_nameRecords htrace line)).1 h
  unfold tracedRecords at hmem
  split at hmem
  · rw [List.mem_singleton.1 hmem]
    exact .kept
  rw [List.mem_append, List.mem_append, List.mem_map, List.mem_map] at hmem
  rcases hmem with (hmem | ⟨reference, hreference, rfl⟩) | ⟨inner, hinner, rfl⟩
  · split at hmem
    · cases hmem
    · next hvalues =>
      rw [List.mem_singleton.1 hmem]
      exact .values htrace (by simpa using hvalues)
  · exact .parameter htrace hreference
  · exact .deadEnd htrace hinner

theorem recordOf_of_argumentRecords {options : ScanOptions} {keepText : Bool} {expression line start : Nat}
    {record : Record} (h : (t.argumentRecords options keepText expression line start).Contains record) :
    t.RecordOf expression line start record := by
  unfold argumentRecords at h
  split at h
  · next hk =>
    obtain ⟨value, hvalue, h⟩ := bind_contains.1 h
    have h := pure_contains.1 h
    split at h
    · cases h
    · next hne =>
      rw [List.mem_singleton.1 h]
      exact .literal hk hvalue hne
  · split at h
    · cases pure_contains.1 h
    · exact recordOf_of_nameRecords h
  · exact recordOf_of_nameRecords h
  · have h := pure_contains.1 h
    split at h
    · rw [List.mem_singleton.1 h]
      exact .kept
    · cases h

end SyntaxTree

end CommandTrace
