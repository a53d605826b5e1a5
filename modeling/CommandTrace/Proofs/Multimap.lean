/-
Rule maps as ordered multimaps.

A map may be put together in several ways: from a list, by adding a rule to
another map, by merging two, from references (`Assembly`). Merging takes the
rules out key by key and adds them anew, so they arrive in another order than
they were first added in; yet the map is always the one made from the list of
all rules that went in (`Assembly.map_eq`). What it holds under a key, which
keys it has and how many rules it has are read off that list, and the laws of
merging are those of putting lists together.
-/
import CommandTrace.Proofs.RuleMap
import Mathlib.Data.List.Nodup

namespace CommandTrace.RuleMap

/-! ## What a map made from a list holds -/

/-- What each bucket of a map keeps to. -/
structure IsBucket (bucket : String × List Rule) : Prop where
  ne_nil : bucket.2 ≠ []
  key_eq : ∀ r ∈ bucket.2, r.key = bucket.1
  nodup : bucket.2.Nodup

theorem isBucket_of_mem {rs : List Rule} {bucket : String × List Rule} (h : bucket ∈ (ofList rs).buckets) :
    IsBucket bucket := by
  rw [buckets_ofList, List.mem_map] at h
  obtain ⟨key, hkey, rfl⟩ := h
  obtain ⟨r, hr, rfl⟩ := List.mem_map.1 (mem_distinct.1 hkey)
  refine ⟨?ne_nil, ?key_eq, nodup_distinct _⟩
  case ne_nil =>
    have hmem : r ∈ distinct (rulesOf rs r.key) := mem_distinct.2 (mem_rulesOf.2 ⟨hr, rfl⟩)
    exact List.ne_nil_of_mem hmem
  case key_eq =>
    intro r' hr'
    exact (mem_rulesOf.1 (mem_distinct.1 hr')).2

theorem keys_ofList (rs : List Rule) : (ofList rs).keys = distinct (rs.map Rule.key) := by
  rw [keys, buckets_ofList, List.map_map]
  exact List.map_id _

/-- A key is there exactly if rules are found under it. -/
theorem contains_ofList_iff (rs : List Rule) (key : String) :
    (ofList rs).contains key = true ↔ (ofList rs).lookup key ≠ [] := by
  rw [contains, List.contains_iff_mem, keys_ofList, mem_distinct, List.mem_map]
  simp only [ne_eq, List.eq_nil_iff_forall_not_mem, mem_lookup_ofList, not_forall, not_not]

theorem nodup_toList_ofList (rs : List Rule) : (ofList rs).toList.Nodup := by
  rw [toList_ofList, List.nodup_flatMap]
  refine ⟨fun key _ => nodup_distinct _, (nodup_distinct _).imp fun {key key'} hne r hr hr' => ?_⟩
  -- a rule stands under its own key only
  have hkey := (mem_rulesOf.1 (mem_distinct.1 hr)).2
  have hkey' := (mem_rulesOf.1 (mem_distinct.1 hr')).2
  exact hne (hkey.symm.trans hkey')

/-- The rules of a map are those of the list, once each, grouped by key. -/
theorem toList_ofList_perm (rs : List Rule) : (ofList rs).toList.Perm (distinct rs) := by
  rw [List.perm_ext_iff_of_nodup (nodup_toList_ofList rs) (nodup_distinct rs)]
  intro r
  rw [mem_toList_ofList, mem_distinct]

theorem size_ofList (rs : List Rule) : (ofList rs).size = (distinct rs).length :=
  (toList_ofList_perm rs).length_eq

/-! ## Ways to put a map together -/

/-- A way to put a map together. -/
inductive Assembly where
  | ofList (rs : List Rule)
  | add (a : Assembly) (r : Rule)
  | merge (a a' : Assembly)
  | ofReferences (refs : List Reference)

namespace Assembly

/-- The map that comes about. -/
def map : Assembly → RuleMap
  | ofList rs => .ofList rs
  | add a r => a.map.add r
  | merge a a' => a.map.merge a'.map
  | ofReferences refs => .ofReferences refs

/-- The rules that went in, one after another. -/
def added : Assembly → List Rule
  | ofList rs => rs
  | add a r => a.added ++ [r]
  | merge a a' => a.added ++ a'.added
  | ofReferences refs => refs.flatMap Rule.ofReference

/-- However it was put together, a map is made from the list of its rules. -/
theorem map_eq (a : Assembly) : a.map = .ofList a.added := by
  induction a with
  | ofList rs => rfl
  | add a r ih => rw [map, ih, added, ofList_concat]
  | merge a a' ih ih' => rw [map, ih, ih', added, merge_ofList]
  | ofReferences refs => rfl

theorem merge_map (a a' : Assembly) : a.map.merge a'.map = .ofList (a.added ++ a'.added) :=
  (merge a a').map_eq

end Assembly

theorem ofList_append_self (rs : List Rule) : ofList (rs ++ rs) = ofList rs := by
  have htwice : ∀ {α : Type} [DecidableEq α] (l : List α), distinct (l ++ l) = distinct l := by
    intro α _ l
    rw [distinct_append, union_of_subset fun a ha => mem_distinct.2 ha]
  refine ofList_congr ?_ fun key => ?_
  · rw [List.map_append, htwice]
  · rw [rulesOf_append, htwice]

/-- **A map is decided by the rules that went in**, whatever the way: each bucket
is for one key and has rules of that key, at least one and each once; the keys
stand in the order in which they came first, and so do the rules of a key; a key
is there exactly if it has rules; and the size counts different rules. Making a
map from two lists, or from references, is merging the maps of the parts, and
merging is associative, idempotent and does nothing with the empty map. -/
theorem canonical_multimap (a : Assembly) :
    (∀ bucket ∈ a.map.buckets, IsBucket bucket) ∧
    a.map.keys = (a.added.map Rule.key).eraseDups ∧
    (∀ key, a.map.lookup key = (rulesOf a.added key).eraseDups) ∧
    (∀ key, a.map.contains key = true ↔ a.map.lookup key ≠ []) ∧
    a.map.size = a.added.eraseDups.length ∧
    (∀ rs rs', ofList (rs ++ rs') = (ofList rs).merge (ofList rs')) ∧
    (∀ refs refs', ofReferences (refs ++ refs') = (ofReferences refs).merge (ofReferences refs')) ∧
    (∀ b c : Assembly, (a.map.merge b.map).merge c.map = a.map.merge (b.map.merge c.map)) ∧
    a.map.merge a.map = a.map ∧ a.map.merge empty = a.map ∧ empty.merge a.map = a.map := by
  have hempty : empty = (Assembly.ofList []).map := rfl
  refine ⟨?buckets, ?keys, ?lookup, ?contains, ?size, fun rs rs' => (merge_ofList rs rs').symm,
    fun refs refs' => (merge_ofReferences refs refs').symm, ?assoc, ?idem, ?right, ?left⟩
  case buckets =>
    intro bucket hbucket
    rw [a.map_eq] at hbucket
    exact isBucket_of_mem hbucket
  case keys => rw [a.map_eq, keys_ofList, distinct_eq_eraseDups]
  case lookup =>
    intro key
    rw [a.map_eq, lookup_ofList, distinct_eq_eraseDups]
  case contains =>
    intro key
    rw [a.map_eq]
    exact contains_ofList_iff a.added key
  case size => rw [a.map_eq, size_ofList, distinct_eq_eraseDups]
  case assoc =>
    intro b c
    have hleft := (Assembly.merge (.merge a b) c).map_eq
    have hright := (Assembly.merge a (.merge b c)).map_eq
    simp only [Assembly.map, Assembly.added] at hleft hright
    rw [hleft, hright, List.append_assoc]
  case idem => rw [Assembly.merge_map, ofList_append_self, a.map_eq]
  case right => rw [hempty, Assembly.merge_map, Assembly.added, List.append_nil, a.map_eq]
  case left => rw [hempty, Assembly.merge_map, Assembly.added, List.nil_append, a.map_eq]

namespace Interleaved

def run (type : String) (index : Int) : Rule :=
  { key := type ++ ".Run", methodName := "Run", index }

/-- Rules of two types in turn, some of them again, and a reference to one of the
types and a third. -/
def assembly : Assembly :=
  .merge (.add (.ofList [run "A" 0, run "B" 0, run "A" 1, run "B" 0]) (run "A" 0))
    (.ofReferences [⟨["B", "", "C"], "Run", 0, none⟩])

/-- The rules come out grouped, and merging once more changes nothing. -/
theorem grouped :
    ("A.Run", [run "A" 0, run "A" 1]) ∈ assembly.map.buckets ∧
    IsBucket ("A.Run", [run "A" 0, run "A" 1]) ∧
    assembly.map.keys = ["A.Run", "B.Run", "C.Run"] ∧
    assembly.map.lookup "B.Run" = [run "B" 0, { run "B" 0 with origin := .pending }] ∧
    assembly.map.contains "D.Run" = false ∧ assembly.map.size = 5 ∧
    assembly.map.merge assembly.map = assembly.map := by
  obtain ⟨hbuckets, hkeys, hlookup, hcontains, hsize, -, -, -, hidem, -⟩ := canonical_multimap assembly
  have hmem : ("A.Run", [run "A" 0, run "A" 1]) ∈ assembly.map.buckets := by decide
  refine ⟨hmem, hbuckets _ hmem, hkeys.trans (by decide), (hlookup "B.Run").trans (by decide), ?_,
    hsize.trans (by decide), hidem⟩
  rw [← Bool.not_eq_true, hcontains, hlookup]
  decide

end Interleaved

end CommandTrace.RuleMap
