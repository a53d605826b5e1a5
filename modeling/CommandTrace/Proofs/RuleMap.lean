/-
Rule maps as lists of rules.

A map is made from a list of rules, and what it holds can be read off that
list: `lookup_ofList` for one key, `buckets_ofList` for the whole. Two lists
with the same keys and the same rules of each key, repeats aside, make the
same map (`ofList_congr`), so merging two maps is putting their lists one
after the other: `merge_ofList`. Every map that comes about by adding rules is
made from a list (`built_iff`).
-/
import CommandTrace.Proofs.Distinct
import CommandTrace.RuleMap

namespace CommandTrace.RuleMap

/-- The rules of a list that are for a key. -/
def rulesOf (rs : List Rule) (key : String) : List Rule :=
  rs.filter fun r => r.key = key

theorem mem_rulesOf {rs : List Rule} {key : String} {r : Rule} :
    r ∈ rulesOf rs key ↔ r ∈ rs ∧ r.key = key := by
  simp [rulesOf]

theorem rulesOf_append (rs rs' : List Rule) (key : String) :
    rulesOf (rs ++ rs') key = rulesOf rs key ++ rulesOf rs' key :=
  List.filter_append ..

theorem ofList_append (rs rs' : List Rule) : ofList (rs ++ rs') = (ofList rs).addAll rs' :=
  List.foldl_append

theorem ofList_concat (rs : List Rule) (r : Rule) : ofList (rs ++ [r]) = (ofList rs).add r :=
  ofList_append rs [r]

/-- The maps that come about: rules are added one by one to the empty map. -/
inductive Built : RuleMap → Prop
  | empty : Built empty
  | add {m : RuleMap} (r : Rule) : Built m → Built (m.add r)

theorem built_iff {m : RuleMap} : m.Built ↔ ∃ rs, m = ofList rs := by
  constructor
  · intro h
    induction h with
    | empty => exact ⟨[], rfl⟩
    | add r _ ih =>
      obtain ⟨rs, rfl⟩ := ih
      exact ⟨rs ++ [r], (ofList_concat rs r).symm⟩
  · rintro ⟨rs, rfl⟩
    induction rs using List.reverseRecOn with
    | nil => exact .empty
    | append_singleton rs r ih =>
      rw [ofList_concat]
      exact .add r ih

/-! ## One key -/

theorem buckets_add (m : RuleMap) (r : Rule) : (m.add r).buckets = addTo r m.buckets := rfl

theorem lookup_add (m : RuleMap) (r : Rule) (key : String) :
    (m.add r).lookup key = if r.key = key then addNew (m.lookup key) r else m.lookup key := by
  obtain ⟨buckets⟩ := m
  simp only [lookup, add]
  induction buckets with
  | nil =>
    by_cases h : r.key = key
    · simp [addTo, h, addNew]
    · simp [addTo, h]
  | cons bucket buckets ih =>
    obtain ⟨k, rules⟩ := bucket
    by_cases hk : k = r.key
    · subst hk
      by_cases h : r.key = key
      · simp [addTo, h]
      · simp [addTo, h]
    · by_cases h : k = key
      · subst h
        have hr : r.key ≠ k := fun he => hk he.symm
        simp [addTo, hk, hr]
      · simp only [addTo, hk, if_false, List.find?_cons, h, decide_false]
        exact ih

theorem lookup_ofList (rs : List Rule) (key : String) :
    (ofList rs).lookup key = distinct (rulesOf rs key) := by
  induction rs using List.reverseRecOn with
  | nil => rfl
  | append_singleton rs r ih =>
    rw [ofList_concat, lookup_add, ih, rulesOf_append]
    by_cases h : r.key = key
    · have hr : rulesOf [r] key = [r] := by simp [rulesOf, h]
      rw [if_pos h, hr, distinct_concat]
    · have hr : rulesOf [r] key = [] := by simp [rulesOf, h]
      rw [if_neg h, hr, List.append_nil]

theorem mem_lookup_ofList {rs : List Rule} {key : String} {r : Rule} :
    r ∈ (ofList rs).lookup key ↔ r ∈ rs ∧ r.key = key := by
  rw [lookup_ofList, mem_distinct, mem_rulesOf]

theorem lookup_of_size_eq_zero {m : RuleMap} (h : m.size = 0) (key : String) : m.lookup key = [] := by
  have hnil : ∀ bucket ∈ m.buckets, bucket.2 = [] := List.flatMap_eq_nil_iff.1 (List.length_eq_zero_iff.1 h)
  unfold lookup
  split
  · rename_i bucket hfind
    exact hnil bucket (List.mem_of_find?_eq_some hfind)
  · rfl

theorem size_ofList_eq_zero {rs : List Rule} : (ofList rs).size = 0 ↔ rs = [] := by
  constructor
  · intro h
    refine List.eq_nil_iff_forall_not_mem.2 fun r hr => ?_
    have hmem : r ∈ (ofList rs).lookup r.key := mem_lookup_ofList.2 ⟨hr, rfl⟩
    rw [lookup_of_size_eq_zero h] at hmem
    exact List.not_mem_nil hmem
  · rintro rfl
    rfl

/-! ## The whole map -/

theorem addTo_map {ks : List String} (hks : ks.Nodup) (f : String → List Rule) (r : Rule) :
    addTo r (ks.map fun k => (k, f k)) =
      if r.key ∈ ks then ks.map fun k => (k, if k = r.key then addNew (f k) r else f k)
      else ks.map (fun k => (k, f k)) ++ [(r.key, [r])] := by
  induction ks with
  | nil => rfl
  | cons k ks ih =>
    obtain ⟨hk, hks⟩ := List.nodup_cons.1 hks
    rw [List.map_cons, addTo]
    by_cases h : k = r.key
    · -- The bucket is the first one; the others are for other keys.
      subst h
      have hrest : ∀ k' ∈ ks, (k', if k' = r.key then addNew (f k') r else f k') = (k', f k') := by
        intro k' hk'
        have hne : k' ≠ r.key := fun he => hk (he ▸ hk')
        rw [if_neg hne]
      simp [List.map_congr_left hrest]
    · have h' : r.key ≠ k := fun he => h he.symm
      rw [if_neg h, ih hks]
      by_cases hr : r.key ∈ ks <;> simp [hr, h, h']

/-- **What a map holds**: the keys of its rules in order of first occurrence,
and under each the rules of that key in order of first occurrence. -/
theorem buckets_ofList (rs : List Rule) :
    (ofList rs).buckets = (distinct (rs.map Rule.key)).map fun key => (key, distinct (rulesOf rs key)) := by
  induction rs using List.reverseRecOn with
  | nil => rfl
  | append_singleton rs r ih =>
    rw [ofList_concat, buckets_add, ih, addTo_map (nodup_distinct _), List.map_append, List.map_singleton,
      distinct_concat]
    have hother : ∀ key, key ≠ r.key → rulesOf (rs ++ [r]) key = rulesOf rs key := by
      intro key hkey
      have hne : r.key ≠ key := fun he => hkey he.symm
      simp [rulesOf, hne]
    have hsame : rulesOf (rs ++ [r]) r.key = rulesOf rs r.key ++ [r] := by
      simp [rulesOf]
    by_cases hr : r.key ∈ distinct (rs.map Rule.key)
    · rw [if_pos hr, addNew_of_mem hr]
      refine List.map_congr_left fun key _ => ?_
      by_cases hkey : key = r.key
      · rw [if_pos hkey, hkey, hsame, distinct_concat]
      · rw [if_neg hkey, hother key hkey]
    · rw [if_neg hr, addNew_of_not_mem hr, List.map_append, List.map_singleton]
      have hnone : rulesOf rs r.key = [] := by
        refine List.eq_nil_iff_forall_not_mem.2 fun r' hr' => ?_
        obtain ⟨hmem, hkey⟩ := mem_rulesOf.1 hr'
        exact hr (mem_distinct.2 (List.mem_map.2 ⟨r', hmem, hkey⟩))
      congr 1
      · refine List.map_congr_left fun key hkey => ?_
        rw [hother key fun he => hr (he ▸ hkey)]
      · rw [hsame, hnone]
        rfl

theorem ofList_congr {rs rs' : List Rule}
    (hkeys : distinct (rs.map Rule.key) = distinct (rs'.map Rule.key))
    (hrules : ∀ key, distinct (rulesOf rs key) = distinct (rulesOf rs' key)) : ofList rs = ofList rs' := by
  have h : (ofList rs).buckets = (ofList rs').buckets := by
    rw [buckets_ofList, buckets_ofList, hkeys]
    exact List.map_congr_left fun key _ => by rw [hrules key]
  cases hm : ofList rs
  cases hm' : ofList rs'
  simp_all

/-! ## Merging -/

theorem toList_ofList (rs : List Rule) :
    (ofList rs).toList = (distinct (rs.map Rule.key)).flatMap fun key => distinct (rulesOf rs key) := by
  rw [toList, buckets_ofList, List.flatMap_map]

theorem mem_toList_ofList {rs : List Rule} {rule : Rule} : rule ∈ (ofList rs).toList ↔ rule ∈ rs := by
  simp only [toList_ofList, List.mem_flatMap, mem_distinct, mem_rulesOf]
  constructor
  · rintro ⟨key, -, h, -⟩
    exact h
  · intro h
    exact ⟨rule.key, List.mem_map_of_mem h, h, rfl⟩

theorem union_flatMap {ks l : List String} {f : String → List String}
    (hf : ∀ k ∈ ks, k ∈ f k ∧ ∀ k' ∈ f k, k' = k) : union l (ks.flatMap f) = union l ks := by
  induction ks generalizing l with
  | nil => rfl
  | cons k ks ih =>
    have hk : union l (f k) = addNew l k := by
      obtain ⟨hmem, hall⟩ := hf k (by simp)
      cases hfk : f k with
      | nil => simp [hfk] at hmem
      | cons k' rest =>
        rw [hfk] at hall
        rw [union_cons, hall k' (by simp)]
        exact union_of_subset fun a ha => mem_addNew.2 (.inr (hall a (by simp [ha])))
    rw [List.flatMap_cons, union_append, hk, union_cons]
    exact ih fun k' hk' => hf k' (by simp [hk'])

theorem distinct_keys_toList (rs : List Rule) :
    distinct ((ofList rs).toList.map Rule.key) = distinct (rs.map Rule.key) := by
  rw [toList_ofList, List.map_flatMap, distinct, union_flatMap]
  · exact distinct_distinct _
  intro key hkey
  obtain ⟨r, hr, rfl⟩ := List.mem_map.1 (mem_distinct.1 hkey)
  constructor
  · exact List.mem_map.2 ⟨r, mem_distinct.2 (mem_rulesOf.2 ⟨hr, rfl⟩), rfl⟩
  · intro key' hkey'
    obtain ⟨r', hr', rfl⟩ := List.mem_map.1 hkey'
    exact (mem_rulesOf.1 (mem_distinct.1 hr')).2

theorem filter_flatMap_key {ks : List String} (hks : ks.Nodup) {f : String → List Rule}
    (hf : ∀ k, ∀ r ∈ f k, r.key = k) (key : String) :
    rulesOf (ks.flatMap f) key = if key ∈ ks then f key else [] := by
  induction ks with
  | nil => rfl
  | cons k ks ih =>
    obtain ⟨hk, hks⟩ := List.nodup_cons.1 hks
    rw [List.flatMap_cons, rulesOf_append, ih hks]
    by_cases h : key = k
    · subst h
      have hself : rulesOf (f key) key = f key := List.filter_eq_self.2 fun r hr => by simpa using hf key r hr
      simp [hself, hk]
    · have hnone : rulesOf (f k) key = [] := by
        refine List.eq_nil_iff_forall_not_mem.2 fun r hr => ?_
        obtain ⟨hmem, hkey⟩ := mem_rulesOf.1 hr
        exact h (hkey.symm.trans (hf k r hmem))
      simp [hnone, h]

theorem rulesOf_toList (rs : List Rule) (key : String) :
    rulesOf (ofList rs).toList key = distinct (rulesOf rs key) := by
  rw [toList_ofList, filter_flatMap_key (nodup_distinct _) fun k r hr => (mem_rulesOf.1 (mem_distinct.1 hr)).2]
  split
  · rfl
  · rename_i h
    have hnone : rulesOf rs key = [] := by
      refine List.eq_nil_iff_forall_not_mem.2 fun r hr => ?_
      obtain ⟨hmem, hkey⟩ := mem_rulesOf.1 hr
      exact h (mem_distinct.2 (List.mem_map.2 ⟨r, hmem, hkey⟩))
    rw [hnone]
    rfl

/-- **Merging is putting the lists together**, as ordered maps. -/
theorem merge_ofList (rs rs' : List Rule) : (ofList rs).merge (ofList rs') = ofList (rs ++ rs') := by
  refine ofList_congr ?_ fun key => ?_
  · rw [List.map_append, List.map_append, distinct_append, distinct_append, distinct_keys_toList,
      ← union_distinct, distinct_keys_toList, union_distinct]
  · rw [rulesOf_append, rulesOf_append, distinct_append, distinct_append, rulesOf_toList, rulesOf_toList,
      distinct_distinct, union_distinct]

/-! ## Maps of references -/

theorem mem_lookup_ofReferences {refs : List Reference} {key : String} {rule : Rule} :
    rule ∈ (ofReferences refs).lookup key ↔ ∃ r ∈ refs, rule ∈ (ofReferences [r]).lookup key := by
  simp only [ofReferences, mem_lookup_ofList, List.mem_flatMap, List.mem_singleton, exists_eq_left]
  constructor
  · rintro ⟨⟨r, hr, hrule⟩, hkey⟩
    exact ⟨r, hr, hrule, hkey⟩
  · rintro ⟨r, hr, hrule, hkey⟩
    exact ⟨⟨r, hr, hrule⟩, hkey⟩

theorem size_ofReferences_eq_zero {refs : List Reference} :
    (ofReferences refs).size = 0 ↔ ∀ r ∈ refs, (ofReferences [r]).size = 0 := by
  simp [ofReferences, size_ofList_eq_zero]

theorem merge_ofReferences (refs refs' : List Reference) :
    (ofReferences refs).merge (ofReferences refs') = ofReferences (refs ++ refs') := by
  rw [ofReferences, ofReferences, merge_ofList, ← List.flatMap_append, ofReferences]

end CommandTrace.RuleMap
