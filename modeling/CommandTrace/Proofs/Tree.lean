/-
Walks over the tree of a file.

Outward, a scope of a scope is a scope (`scopes_trans`), and of two scopes of a
node one is a scope of the other (`scopes_total`). Inward, a walk visits the
subtrees on its stack one after the other (`toList_visit`). The numbering of a
parse tree leaves no node out: each but the first is a child of its parent
(`exists_links_number`), so all nodes are below the root
(`IsParse.mem_subtree_root`) and every name in the file can be followed
(`IsParse.text_mem_copyableNames`). The two directions agree: a node is below
each of its scopes (`IsParse.mem_subtree_of_mem_scopes`), and the parent of a
child is the node that lists it (`IsParse.parent_of_mem_children`).
-/
import CommandTrace.Tracing

namespace CommandTrace

namespace ParseTree

/-- Among nodes numbered from `i` on, the one at place `j` is the parent of the
one at place `k`, and both say so. -/
def Links (nodes : List Node) (i j k : Nat) : Prop :=
  ∃ n n', nodes[j]? = some n ∧ nodes[k]? = some n' ∧ i + k ∈ n.children ∧ n'.parent = some (i + j)

theorem Links.shift {nodes nodes' : List Node} {i i' j k d : Nat} (h : Links nodes' i' j k) (hi : i' = i + d)
    (hnodes : ∀ k : Nat, k < nodes'.length → nodes[d + k]? = nodes'[k]?) : Links nodes i (d + j) (d + k) := by
  obtain ⟨n, n', hn, hn', hc, hp⟩ := h
  have hj : j < nodes'.length := (List.getElem?_eq_some_iff.1 hn).1
  have hk : k < nodes'.length := (List.getElem?_eq_some_iff.1 hn').1
  refine ⟨n, n', by rw [hnodes j hj, hn], by rw [hnodes k hk, hn'], ?_, ?_⟩
  · rwa [← Nat.add_assoc, ← hi]
  · rw [hp, hi, Nat.add_assoc]

theorem Links.cons {node : Node} {nodes : List Node} {i j k : Nat} (h : Links nodes (i + 1) j k) :
    Links (node :: nodes) i (j + 1) (k + 1) := by
  rw [Nat.add_comm j, Nat.add_comm k]
  refine h.shift rfl fun k _ => ?_
  rw [Nat.add_comm, List.getElem?_cons_succ]

theorem Links.append_left {nodes : List Node} {i j k : Nat} (h : Links nodes i j k) (nodes' : List Node) :
    Links (nodes ++ nodes') i j k := by
  rw [← Nat.zero_add j, ← Nat.zero_add k]
  refine h.shift rfl fun k hk => ?_
  rw [Nat.zero_add, List.getElem?_append_left hk]

theorem Links.append_right {nodes nodes' : List Node} {i j k d : Nat} (hd : nodes.length = d)
    (h : Links nodes' (i + d) j k) : Links (nodes ++ nodes') i (d + j) (d + k) := by
  refine h.shift rfl fun k _ => ?_
  rw [List.getElem?_append_right (by omega), hd, Nat.add_sub_cancel_left]

mutual

theorem exists_links_number {p : Option Nat} {i : Nat} :
    ∀ (tree : ParseTree) (k : Nat), k < tree.size → k ≠ 0 → ∃ j, Links (number p i tree) i j k
  | node label children, 0, _, h0 => absurd rfl h0
  | node label children, k + 1, hk, _ => by
    have hk' : k < forestSize children := by
      rw [size] at hk
      omega
    rcases exists_links_numberAll (p := some i) (i := i + 1) children k hk' with ⟨hroot, n, hn, hp⟩ | ⟨j, hj⟩
    · refine ⟨0, _, n, rfl, hn, ?_, hp⟩
      rwa [show i + (k + 1) = i + 1 + k by omega]
    · exact ⟨j + 1, hj.cons⟩

theorem exists_links_numberAll {p : Option Nat} {i : Nat} :
    ∀ (trees : List ParseTree) (k : Nat), k < forestSize trees →
      (i + k ∈ roots i trees ∧ ∃ n, (numberAll p i trees)[k]? = some n ∧ n.parent = p) ∨
        ∃ j, Links (numberAll p i trees) i j k
  | [], k, hk => absurd hk (by simp [forestSize])
  | tree :: trees, k, hk => by
    have hlen := length_number p i tree
    simp only [numberAll, roots, List.mem_cons]
    by_cases hfirst : k < tree.size
    · by_cases h0 : k = 0
      · obtain ⟨label, children⟩ := tree
        exact .inl ⟨.inl (by omega), ⟨label, p, roots (i + 1) children⟩, by simp [h0, number], rfl⟩
      · obtain ⟨j, hj⟩ := exists_links_number (p := p) (i := i) tree k hfirst h0
        exact .inr ⟨j, hj.append_left _⟩
    · have hk' : k - tree.size < forestSize trees := by
        rw [forestSize] at hk
        omega
      have e : tree.size + (k - tree.size) = k := by omega
      rcases exists_links_numberAll (p := p) (i := i + tree.size) trees (k - tree.size) hk' with
        ⟨hroot, n, hn, hp⟩ | ⟨j, hj⟩
      · rw [Nat.add_assoc, e] at hroot
        refine .inl ⟨.inr hroot, n, ?_, hp⟩
        rw [List.getElem?_append_right (by omega), hlen, hn]
      · exact .inr ⟨tree.size + j, e ▸ hj.append_right hlen⟩

end

theorem exists_parent_of_mem_roots {p : Option Nat} {c : Nat} :
    ∀ {i : Nat} {trees : List ParseTree}, c ∈ roots i trees →
      ∃ k n, c = i + k ∧ (numberAll p i trees)[k]? = some n ∧ n.parent = p
  | i, node label children :: trees, h => by
    rcases List.mem_cons.1 h with rfl | h
    · exact ⟨0, _, rfl, rfl, rfl⟩
    · obtain ⟨k, n, rfl, hn, hp⟩ := exists_parent_of_mem_roots (p := p) h
      have hlen := length_number p i (node label children)
      refine ⟨(node label children).size + k, n, by omega, ?_, hp⟩
      rw [numberAll, List.getElem?_append_right (by omega), hlen, Nat.add_sub_cancel_left, hn]

mutual

/-- A child that a node lists says so too. -/
theorem links_number {p : Option Nat} {i c : Nat} {n : Node} :
    ∀ (tree : ParseTree) (j : Nat), (number p i tree)[j]? = some n → c ∈ n.children →
      ∃ k, c = i + k ∧ Links (number p i tree) i j k
  | node label children, 0, hn, hc => by
    rw [number, List.getElem?_cons_zero, Option.some.injEq] at hn
    subst hn
    obtain ⟨k, n', rfl, hn', hp⟩ := exists_parent_of_mem_roots (p := some i) hc
    have e : i + 1 + k = i + (k + 1) := by omega
    exact ⟨k + 1, e, _, n', rfl, hn', e ▸ hc, hp⟩
  | node label children, j + 1, hn, hc => by
    rw [number, List.getElem?_cons_succ] at hn
    obtain ⟨k, rfl, hlinks⟩ := links_numberAll children j hn hc
    exact ⟨k + 1, by omega, hlinks.cons⟩

theorem links_numberAll {p : Option Nat} {i c : Nat} {n : Node} :
    ∀ (trees : List ParseTree) (j : Nat), (numberAll p i trees)[j]? = some n → c ∈ n.children →
      ∃ k, c = i + k ∧ Links (numberAll p i trees) i j k
  | [], j, hn, _ => by simp [numberAll] at hn
  | tree :: trees, j, hn, hc => by
    have hlen := length_number p i tree
    rw [numberAll] at hn ⊢
    by_cases hfirst : j < tree.size
    · rw [List.getElem?_append_left (by omega)] at hn
      obtain ⟨k, hk, hlinks⟩ := links_number tree j hn hc
      exact ⟨k, hk, hlinks.append_left _⟩
    · rw [List.getElem?_append_right (by omega), hlen] at hn
      obtain ⟨k, rfl, hlinks⟩ := links_numberAll trees (j - tree.size) hn hc
      have e : tree.size + (j - tree.size) = j := by omega
      exact ⟨tree.size + k, by omega, e ▸ hlinks.append_right hlen⟩

end

end ParseTree

namespace SyntaxTree

variable {t : SyntaxTree}

/-! ## Outward -/

theorem ancestors_eq_cons {i p : Nat} (h : t.parent i = some p) : t.ancestors i = t.scopes p := by
  rw [ancestors]
  split
  · next hn => simp [h] at hn
  · next q hq =>
    rw [h, Option.some.injEq] at hq
    rw [hq, scopes]

theorem mem_scopes_self (i : Nat) : i ∈ t.scopes i := List.mem_cons_self

theorem mem_ancestors {i a : Nat} : a ∈ t.ancestors i ↔ ∃ p, t.parent i = some p ∧ a ∈ t.scopes p := by
  cases h : t.parent i with
  | none =>
    rw [ancestors]
    split
    · simp
    · next hp => simp [h] at hp
  | some p => simp [ancestors_eq_cons h]

/-- A scope of a scope is a scope. -/
theorem scopes_trans {i a b : Nat} (ha : a ∈ t.scopes i) (hb : b ∈ t.scopes a) : b ∈ t.scopes i := by
  induction i using Nat.strongRecOn with
  | ind i ih =>
    rcases List.mem_cons.1 ha with rfl | ha
    · exact hb
    · obtain ⟨p, hp, ha⟩ := mem_ancestors.1 ha
      exact List.mem_cons_of_mem _ (mem_ancestors.2 ⟨p, hp, ih p (t.parent_lt hp) ha⟩)

/-- Of two scopes of a node, one is around the other. -/
theorem scopes_total {i a b : Nat} (ha : a ∈ t.scopes i) (hb : b ∈ t.scopes i) :
    b ∈ t.scopes a ∨ a ∈ t.scopes b := by
  induction i using Nat.strongRecOn with
  | ind i ih =>
    rcases List.mem_cons.1 ha with rfl | ha
    · exact .inl hb
    rcases List.mem_cons.1 hb with rfl | hb
    · exact .inr (List.mem_cons_of_mem _ ha)
    obtain ⟨p, hp, ha⟩ := mem_ancestors.1 ha
    rw [ancestors_eq_cons hp] at hb
    exact ih p (t.parent_lt hp) ha hb

/-- The scopes from one on are its own. -/
theorem scopes_eq_of_append {i a : Nat} {inner outer : List Nat} (h : t.scopes i = inner ++ a :: outer) :
    t.scopes a = a :: outer := by
  induction inner generalizing i with
  | nil =>
    have hia : i = a := (List.cons.inj h).1
    rw [← hia, h, hia]
    rfl
  | cons first inner ih =>
    have hrest : t.ancestors i = inner ++ a :: outer := (List.cons.inj h).2
    cases hp : t.parent i with
    | none =>
      have hmem : a ∈ t.ancestors i := by simp [hrest]
      obtain ⟨p, hp', -⟩ := mem_ancestors.1 hmem
      rw [hp] at hp'
      cases hp'
    | some p => exact ih ((ancestors_eq_cons hp).symm.trans hrest)

/-! ## Inward -/

/-- The nodes on the stack are visited one after the other, each with all that is
below it. -/
theorem toList_visit (visited : Array Nat) (stack : List Nat) :
    (t.visit visited stack).toList = visited.toList ++ stack.flatMap t.preorder := by
  induction visited, stack using visit.induct t with
  | case1 visited => simp [visit]
  | case2 visited i rest ih =>
    have hpushed : (t.children i).foldr (· :: ·) rest = t.children i ++ rest := List.foldr_cons_eq_append'
    rw [visit, ih, hpushed, Array.toList_push, List.flatMap_append, List.flatMap_cons, preorder_eq t i,
      List.cons_append, List.append_assoc, List.singleton_append]

theorem descendants_eq (i : Nat) : t.descendants i = (t.children i).flatMap t.preorder := by
  rw [descendants, toList_visit, List.nil_append]

theorem subtree_eq_preorder (i : Nat) : t.subtree i = t.preorder i := by
  rw [subtree, descendants_eq, preorder_eq]

theorem mem_descendants {i j : Nat} : j ∈ t.descendants i ↔ ∃ c ∈ t.children i, j ∈ t.subtree c := by
  simp only [descendants_eq, subtree_eq_preorder, List.mem_flatMap]

/-- What is below a node of a subtree is below its root. -/
theorem descendants_trans {i j k : Nat} (hj : j ∈ t.subtree i) (hk : k ∈ t.descendants j) :
    k ∈ t.descendants i := by
  induction i using preorder.induct t with
  | case1 i ih =>
    rcases List.mem_cons.1 hj with rfl | hj
    · exact hk
    · obtain ⟨c, hc, hj⟩ := mem_descendants.1 hj
      exact mem_descendants.2 ⟨c, hc, List.mem_cons_of_mem _ (ih c hc hj)⟩

theorem children_mem_descendants {i j c : Nat} (hj : j ∈ t.subtree i) (hc : c ∈ t.children j) :
    c ∈ t.descendants i :=
  descendants_trans hj (mem_descendants.2 ⟨c, hc, List.mem_cons_self⟩)

variable (t) in
/-- The tree is the parse of some content. -/
def IsParse : Prop :=
  ∃ path source tree hasError, t = ofParseTree path source tree hasError

theorem node_ofParseTree {path : Path} {source : Array UInt8} {tree : ParseTree} {hasError : Bool} {k : Nat} {n : Node}
    (h : (tree.number none 0)[k]? = some n) : (ofParseTree path source tree hasError).node k = n := by
  simp [node, ofParseTree, Walk.copy_eq, h]

theorem IsParse.exists_parent (ht : t.IsParse) {i : Nat} (h : i < t.size) (h0 : i ≠ 0) :
    ∃ p, t.parent i = some p ∧ i ∈ t.children p := by
  obtain ⟨path, source, tree, hasError, rfl⟩ := ht
  have hi : i < tree.size := by simpa [size, ofParseTree, Walk.copy_eq, ParseTree.length_number] using h
  obtain ⟨j, n, n', hn, hn', hc, hp⟩ := ParseTree.exists_links_number (p := none) (i := 0) tree i hi h0
  refine ⟨j, ?_, ?_⟩
  · rw [parent, node_ofParseTree hn', hp, Nat.zero_add]
  · rw [children, node_ofParseTree hn]
    simpa using hc

/-- All nodes of a parse are below its root. -/
theorem IsParse.mem_subtree_root (ht : t.IsParse) {i : Nat} (h : i < t.size) : i ∈ t.subtree root := by
  induction i using Nat.strongRecOn with
  | ind i ih =>
    by_cases h0 : i = 0
    · rw [h0]
      exact List.mem_cons_self
    · obtain ⟨p, hp, hc⟩ := ht.exists_parent h h0
      have hlt := t.parent_lt hp
      exact List.mem_cons_of_mem _ (children_mem_descendants (ih p hlt (Nat.lt_trans hlt h)) hc)

theorem node_eq_default {i : Nat} (h : t.size ≤ i) : t.node i = default := by
  simp [node, Array.getElem?_eq_none h]

theorem kind_eq_other {i : Nat} (h : t.size ≤ i) : t.kind i = .other := by
  rw [kind, isNamed, type, node_eq_default h]
  rfl

theorem lt_size_of_kind {i : Nat} (h : t.kind i ≠ .other) : i < t.size :=
  Nat.lt_of_not_le fun hge => h (kind_eq_other hge)

/-! ## Both directions -/

/-- A child of a node has it for a parent. -/
theorem IsParse.parent_of_mem_children (ht : t.IsParse) {i c : Nat} (h : c ∈ t.children i) : t.parent c = some i := by
  obtain ⟨hlt, hsize⟩ := t.lt_of_mem_children h
  obtain ⟨path, source, tree, hasError, rfl⟩ := ht
  have hi : i < (tree.number none 0).length := by
    have htotal : (ofParseTree path source tree hasError).size = (tree.number none 0).length := by
      simp [size, ofParseTree, Walk.copy_eq]
    omega
  have hn := List.getElem?_eq_getElem hi
  rw [children, node_ofParseTree hn] at h
  obtain ⟨k, rfl, n, n', hn, hn', -, hp⟩ := ParseTree.links_number tree i hn h
  rw [Nat.zero_add, parent, node_ofParseTree hn', hp, Nat.zero_add]

/-- A node is one of the children of its parent. -/
theorem IsParse.mem_children_of_parent (ht : t.IsParse) {i p : Nat} (h : t.parent i = some p) :
    i ∈ t.children p := by
  have hlt : i < t.size := by
    refine Nat.lt_of_not_le fun hge => ?_
    rw [parent, node_eq_default hge] at h
    cases h
  have h0 : i ≠ 0 := Nat.ne_zero_of_lt (t.parent_lt h)
  obtain ⟨q, hq, hc⟩ := ht.exists_parent hlt h0
  rw [h, Option.some.injEq] at hq
  exact hq ▸ hc

theorem IsParse.mem_subtree_of_mem_scopes (ht : t.IsParse) {i a : Nat} (h : a ∈ t.scopes i) :
    i ∈ t.subtree a := by
  induction i using Nat.strongRecOn with
  | ind i ih =>
    rcases List.mem_cons.1 h with rfl | h
    · exact List.mem_cons_self
    · obtain ⟨p, hp, ha⟩ := mem_ancestors.1 h
      have hbelow := ih p (t.parent_lt hp) ha
      exact List.mem_cons_of_mem _ (children_mem_descendants hbelow (ht.mem_children_of_parent hp))

/-- The root is around every node. -/
theorem IsParse.root_mem_scopes (ht : t.IsParse) {i : Nat} (h : i < t.size) : root ∈ t.scopes i := by
  induction i using Nat.strongRecOn with
  | ind i ih =>
    by_cases h0 : i = 0
    · rw [h0]
      exact mem_scopes_self root
    · obtain ⟨p, hp, -⟩ := ht.exists_parent h h0
      have hlt := t.parent_lt hp
      exact List.mem_cons_of_mem _ (mem_ancestors.2 ⟨p, hp, ih p hlt (Nat.lt_trans hlt h)⟩)

/-- The names in a file can be followed. -/
theorem IsParse.text_mem_copyableNames (ht : t.IsParse) {value : Nat}
    (h : t.kind value = .identifier ∨ t.kind value = .memberAccess) : t.text value ∈ t.copyableNames := by
  have hlt : value < t.size := lt_size_of_kind (by rcases h with h | h <;> simp [h])
  rw [copyableNames, mem_distinct]
  exact List.mem_map_of_mem (List.mem_filter.2 ⟨ht.mem_subtree_root hlt, by simpa using h⟩)

end SyntaxTree

end CommandTrace
