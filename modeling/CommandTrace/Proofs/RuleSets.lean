/-
A scan sees its rules as a set.

What a call gives depends on the slots that are taken there, and these are the
slots of all rules that match it, each once. So lists of the same rules, in
whatever order and with whatever repeats, make scans that return the same
records, each as often: `scan_sameElements`. A map that is merged from two holds
the rules of both, and its scan finds what the two scans find together:
`scan_merge`. No rule keeps another one from being used, though one for the same
slot may stand before it.
-/
import CommandTrace.Proofs.CallSite

namespace CommandTrace.SyntaxTree

open Logged

variable {t : SyntaxTree} {options : ScanOptions}

/-! ## The order of the rules -/

section

variable {m m' : RuleMap} (hm : ∀ key rule, rule ∈ m.lookup key ↔ rule ∈ m'.lookup key)
include hm

theorem matches_congr {call : Nat} {keys : List String} {rule : Rule} :
    t.Matches m call keys rule ↔ t.Matches m' call keys rule := by
  simp only [Matches, hm]

/-- The same slots are taken, whatever the order of the rules. -/
theorem matchingRules_perm {call : Nat} {keys : List String} {rules : List Rule}
    (h : (t.matchingRules m call keys).outcome = .ok rules) :
    ∃ rules', (t.matchingRules m' call keys).outcome = .ok rules' ∧
      (rules.map Rule.slot).Perm (rules'.map Rule.slot) := by
  obtain ⟨taken, htaken, honly, hnodup, hall⟩ := matchingRules_eq_ok (t := t) m call keys
  obtain ⟨rules', h', honly', hnodup', hall'⟩ := matchingRules_eq_ok (t := t) m' call keys
  rw [h, Except.ok.injEq] at htaken
  subst htaken
  refine ⟨rules', h', (List.perm_ext_iff_of_nodup hnodup hnodup').2 fun slot => ⟨fun hs => ?_, fun hs => ?_⟩⟩
  · obtain ⟨rule, hrule, rfl⟩ := List.mem_map.1 hs
    exact hall' rule ((matches_congr hm).1 (honly rule hrule))
  · obtain ⟨rule, hrule, rfl⟩ := List.mem_map.1 hs
    exact hall rule ((matches_congr hm).2 (honly' rule hrule))

omit hm in
theorem ruleRecords_sameElements (arguments : List Nat) (recordsOf : Nat → Logged (List Record))
    {rules rules' : List Rule} (h : (rules.map Rule.slot).Perm (rules'.map Rule.slot)) :
    (ruleRecords arguments recordsOf rules).SameElements (ruleRecords arguments recordsOf rules') := by
  have heq : ∀ rules : List Rule, ruleRecords arguments recordsOf rules =
      gather (fun slot => argumentSlot arguments recordsOf slot.1) (rules.map Rule.slot) := by
    intro rules
    rw [gather_map]
    rfl
  rw [heq rules, heq rules']
  exact gather_perm h

theorem scanInvocation_sameElements (declarations : List Declaration) (call : Nat) :
    (t.scanInvocation options m declarations call).SameElements
      (t.scanInvocation options m' declarations call) := by
  intro records h
  rw [scanInvocation] at h
  obtain ⟨keys, hkeys, h⟩ := bind_eq_ok.1 h
  obtain ⟨rules, hrules, h⟩ := bind_eq_ok.1 h
  obtain ⟨rules', hrules', hslots⟩ := matchingRules_perm hm hrules
  obtain ⟨records', h', hperm⟩ := ruleRecords_sameElements _ _ hslots records h
  exact ⟨records', bind_eq_ok.2 ⟨keys, hkeys, bind_eq_ok.2 ⟨rules', hrules', h'⟩⟩, hperm⟩

theorem scanCreation_sameElements (call : Nat) :
    (t.scanCreation options m call).SameElements (t.scanCreation options m' call) := by
  cases htype : t.childByField call "type" with
  | none =>
    have hnone : ∀ m, t.scanCreation options m call = pure [] := fun m => by rw [scanCreation, htype]
    rw [hnone m, hnone m']
    exact .refl _
  | some typeNode =>
    obtain ⟨rules, hrules, -⟩ := matchingRules_eq_ok (t := t) m call (t.creationKeys typeNode)
    obtain ⟨rules', hrules', hslots⟩ := matchingRules_perm hm hrules
    -- the initializer is looked at if any rule was taken, and then once
    cases rules with
    | nil =>
      have hnil : rules' = [] := List.map_eq_nil_iff.1 hslots.nil_eq.symm
      subst hnil
      exact (SameElements.refl (pure [])).congr (outcome_scanCreation_nil htype hrules)
        (outcome_scanCreation_nil htype hrules')
    | cons rule rules =>
      cases rules' with
      | nil => exact absurd hslots.symm.nil_eq (by simp)
      | cons rule' rules' =>
        have harguments := ruleRecords_sameElements (t.argumentExpressions (t.childByField call "arguments"))
          (t.creationRecords options call) hslots
        exact (harguments.append (.refl (t.initializerRecords options call))).congr
          (outcome_scanCreation_cons htype hrules) (outcome_scanCreation_cons htype hrules')

theorem scanSite_sameElements (call : Nat) :
    (t.scanSite options m call).SameElements (t.scanSite options m' call) := by
  unfold scanSite
  split
  · exact scanInvocation_sameElements hm t.declarations call
  · exact scanCreation_sameElements hm call
  · exact .refl _

end

/-- **The order of rules, and repeats among them, make no difference** to what
a scan returns, the order of its records apart. -/
theorem scan_sameElements {rs rs' : List Rule} (h : ∀ rule, rule ∈ rs ↔ rule ∈ rs') :
    (t.scan options (.ofList rs)).SameElements (t.scan options (.ofList rs')) := by
  by_cases hrs : rs = []
  · subst hrs
    have hrs' : rs' = [] := List.eq_nil_iff_forall_not_mem.2 fun rule => by simp [← h]
    rw [hrs']
    exact .refl _
  · have hrs' : rs' ≠ [] := by
      obtain ⟨rule, hrule⟩ := List.exists_mem_of_ne_nil rs hrs
      exact List.ne_nil_of_mem ((h rule).1 hrule)
    rw [scan_eq options (mt RuleMap.size_ofList_eq_zero.1 hrs),
      scan_eq options (mt RuleMap.size_ofList_eq_zero.1 hrs')]
    refine gather_sameElements fun call _ => scanSite_sameElements (fun key rule => ?_) call
    rw [RuleMap.mem_lookup_ofList, RuleMap.mem_lookup_ofList, h]

/-! ## Merged rules -/

theorem holdsAll_append (rs rs' : List Rule) :
    HoldsAll (RuleMap.ofList (rs ++ rs')) (fun l => l = rs ∨ l = rs') RuleMap.ofList where
  lookup key rule := by
    simp only [exists_eq_or_imp, exists_eq_left, RuleMap.mem_lookup_ofList, List.mem_append]
    exact or_and_right
  size := by
    simp only [RuleMap.size_ofList_eq_zero, List.append_eq_nil_iff, forall_eq_or_imp, forall_eq]

/-- A scan with two lists of rules puts together the scans with each. -/
theorem scan_append_succeeds {rs rs' : List Rule} :
    (t.scan options (.ofList (rs ++ rs'))).Succeeds ↔
      (t.scan options (.ofList rs)).Succeeds ∧ (t.scan options (.ofList rs')).Succeeds := by
  rw [(holdsAll_append rs rs').scan_succeeds]
  simp only [forall_eq_or_imp, forall_eq]

theorem scan_append_contains {rs rs' : List Rule} {record : Record} :
    (t.scan options (.ofList (rs ++ rs'))).Contains record ↔ (t.scan options (.ofList (rs ++ rs'))).Succeeds ∧
      ((t.scan options (.ofList rs)).Contains record ∨ (t.scan options (.ofList rs')).Contains record) := by
  rw [((holdsAll_append rs rs').scan_joins options).2]
  simp only [exists_eq_or_imp, exists_eq_left]

/-- **Scanning distributes over merging.** The scan with two maps merged returns
exactly if the scans with each of them do, and its records are theirs. So rules
that are added take no record away, and a list of rules may stand in any
order. -/
theorem scan_merge (t : SyntaxTree) (options : ScanOptions) {a b : RuleMap} (ha : a.Built) (hb : b.Built) :
    (∀ ra rb, (t.scan options a).outcome = .ok ra → (t.scan options b).outcome = .ok rb →
      ∃ records, (t.scan options (a.merge b)).outcome = .ok records ∧
        ∀ record, record ∈ records ↔ record ∈ ra ∨ record ∈ rb) ∧
    ((t.scan options (a.merge b)).Succeeds → (t.scan options a).Succeeds ∧ (t.scan options b).Succeeds) ∧
    (∀ more records records', (t.scan options a).outcome = .ok records →
      (t.scan options (a.addAll more)).outcome = .ok records' → ∀ record ∈ records, record ∈ records') ∧
    ∀ rs rs', rs.Perm rs' → ∀ records, (t.scan options (.ofList rs)).outcome = .ok records →
      ∃ records', (t.scan options (.ofList rs')).outcome = .ok records' ∧
        ∀ record, record ∈ records ↔ record ∈ records' := by
  obtain ⟨rs, rfl⟩ := RuleMap.built_iff.1 ha
  obtain ⟨rs', rfl⟩ := RuleMap.built_iff.1 hb
  rw [RuleMap.merge_ofList]
  refine ⟨fun ra rb hra hrb => ?union, scan_append_succeeds.1, fun more ra records hra hrecords record hrecord => ?more,
    fun l l' hperm records h => ?order⟩
  case union =>
    have hsucc : (t.scan options (.ofList (rs ++ rs'))).Succeeds := scan_append_succeeds.2 ⟨⟨ra, hra⟩, rb, hrb⟩
    obtain ⟨records, hrecords⟩ := hsucc
    refine ⟨records, hrecords, fun record => ?_⟩
    rw [← contains_iff_mem hrecords, ← contains_iff_mem hra, ← contains_iff_mem hrb, scan_append_contains]
    exact and_iff_right ⟨records, hrecords⟩
  case more =>
    rw [← RuleMap.ofList_append] at hrecords
    rw [← contains_iff_mem hrecords, scan_append_contains]
    exact ⟨⟨records, hrecords⟩, .inl ⟨ra, hra, hrecord⟩⟩
  case order =>
    obtain ⟨records', h', hrecords⟩ := scan_sameElements (fun _ => hperm.mem_iff) records h
    exact ⟨records', h', fun _ => hrecords.mem_iff⟩

namespace Creation

/-- `new C(7) { P = 8 }`, where a name or number is one character of the
source. -/
def tree : SyntaxTree :=
  let leaf (type : String) (field : Option String) (i : Nat) := ParseTree.node ⟨type, field, i, i + 1, true⟩ []
  .ofParseTree (.ofString "C.cs") "C7P8".toUTF8.data
    (.node ⟨"compilation_unit", none, 0, 4, true⟩
      [.node ⟨"object_creation_expression", none, 0, 4, true⟩
        [leaf "identifier" (some "type") 0,
          .node ⟨"argument_list", some "arguments", 1, 2, true⟩
            [.node ⟨"argument", none, 1, 2, true⟩ [leaf "integer_literal" none 1]],
          .node ⟨"initializer_expression", some "initializer", 2, 4, true⟩
            [.node ⟨"assignment_expression", none, 2, 4, true⟩
              [leaf "identifier" (some "left") 2, leaf "integer_literal" (some "right") 3]]]])
    false

def initialized : ScanOptions := { property := "P" }

/-- Rules for arguments of the constructor of `C`. -/
def rulesFor (indices : List Int) : List Rule :=
  indices.map fun index => { key := "C", methodName := "C", index }

def recordOf (text : String) : Record := { file := .ofString "C.cs", line := 1, text := .ofString text }

/-- Both maps match the creation, one for an argument that is not there. Each
finds what the initializer sets, and together they find it as well. -/
theorem found_together :
    (RuleMap.ofList (rulesFor [0])).Built ∧ (RuleMap.ofList (rulesFor [1])).Built ∧
    (tree.scan initialized (.ofList (rulesFor [0]))).outcome = .ok [recordOf "7", recordOf "8"] ∧
    (tree.scan initialized (.ofList (rulesFor [1]))).outcome = .ok [recordOf "8"] ∧
    ∃ records, (tree.scan initialized ((RuleMap.ofList (rulesFor [0])).merge (.ofList (rulesFor [1])))).outcome =
        .ok records ∧
      ∀ record, record ∈ records ↔ record ∈ [recordOf "7", recordOf "8"] ∨ record ∈ [recordOf "8"] := by
  have hbuilt : ∀ rs, (RuleMap.ofList rs).Built := fun rs => RuleMap.built_iff.2 ⟨rs, rfl⟩
  have hfirst : (tree.scan initialized (.ofList (rulesFor [0]))).outcome = .ok [recordOf "7", recordOf "8"] := by
    decide +kernel
  have hsecond : (tree.scan initialized (.ofList (rulesFor [1]))).outcome = .ok [recordOf "8"] := by
    decide +kernel
  exact ⟨hbuilt _, hbuilt _, hfirst, hsecond,
    (scan_merge tree initialized (hbuilt _) (hbuilt _)).1 _ _ hfirst hsecond⟩

end Creation

end CommandTrace.SyntaxTree
