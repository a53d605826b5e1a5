/-
The numbered tree of a file is a faithful copy of its parse tree.

The nodes are made by one walk with a cursor, and the walk makes the numbering of
the tree (`Walk.copy_eq`). So the facts about the copy are facts about the
numbering: it lists the labels in document order (`labels_number`), each list of
children is increasing (`children_number`), and from the numbers of the children
the tree can be built again (`rebuild_number`). Both directions of the links are in
`CommandTrace.Proofs.Tree`.

A node has no field for its index: the index of a node is its place in the array, so
that it is right cannot fail, and what is proved is that the links are such places.
Nor has it one for its kind, which `SyntaxTree.kind` finds from the type.
-/
import CommandTrace.Proofs.Tree

namespace CommandTrace

namespace ParseTree

mutual

/-- The numbering has one node for each node of the tree, in document order. -/
theorem labels_number {p : Option Nat} {i depth : Nat} :
    ∀ tree : ParseTree, (number p i tree).map Node.label = (rows depth tree).map Prod.snd
  | node label children => by
    rw [number, rows, List.map_cons, List.map_cons, labels_numberAll children]

theorem labels_numberAll {p : Option Nat} {i depth : Nat} :
    ∀ trees : List ParseTree, (numberAll p i trees).map Node.label = (forestRows depth trees).map Prod.snd
  | [] => by rw [numberAll, forestRows, List.map_nil, List.map_nil]
  | tree :: trees => by
    rw [numberAll, forestRows, List.map_append, List.map_append, labels_number tree, labels_numberAll trees]

end

theorem pairwise_roots : ∀ (i : Nat) (trees : List ParseTree), (roots i trees).Pairwise (· < ·)
  | i, [] => List.Pairwise.nil
  | i, tree :: trees => by
    rw [roots, List.pairwise_cons]
    refine ⟨fun c hc => ?_, pairwise_roots (i + tree.size) trees⟩
    have := mem_roots hc
    have := tree.size_pos
    omega

mutual

theorem children_number {p : Option Nat} {i : Nat} :
    ∀ tree : ParseTree, ∀ n ∈ number p i tree, n.children.Pairwise (· < ·)
  | node label children => by
    rw [number, List.forall_mem_cons]
    exact ⟨pairwise_roots (i + 1) children, children_numberAll children⟩

theorem children_numberAll {p : Option Nat} {i : Nat} :
    ∀ trees : List ParseTree, ∀ n ∈ numberAll p i trees, n.children.Pairwise (· < ·)
  | [] => by simp [numberAll]
  | tree :: trees => by
    rw [numberAll, List.forall_mem_append]
    exact ⟨children_number tree, children_numberAll trees⟩

end

end ParseTree

namespace SyntaxTree

/-! ## Building the tree again -/

/-- The tree below a node, read off the lists of children. -/
def rebuild (t : SyntaxTree) (i : Nat) : ParseTree :=
  .node (t.node i).label ((t.children i).attach.map fun ⟨c, _⟩ => rebuild t c)
termination_by t.size - i
decreasing_by
  rename_i h
  have := t.lt_of_mem_children h
  omega

variable {t : SyntaxTree}

theorem rebuild_eq (t : SyntaxTree) (i : Nat) :
    t.rebuild i = .node (t.node i).label ((t.children i).map t.rebuild) := by
  rw [rebuild]
  simp

/-- Where the nodes from a number on are those of a tree, its root comes first and
then the trees below it. -/
theorem node_of_drop {p : Option Nat} {i : Nat} {label : Label} {children : List ParseTree} {rest : List Node}
    (h : t.nodes.toList.drop i = (ParseTree.node label children).number p i ++ rest) :
    t.node i = ⟨label, p, ParseTree.roots (i + 1) children⟩ ∧
      t.nodes.toList.drop (i + 1) = ParseTree.numberAll (some i) (i + 1) children ++ rest := by
  rw [ParseTree.number, List.cons_append] at h
  have hget : t.nodes[i]? = some ⟨label, p, ParseTree.roots (i + 1) children⟩ := by
    rw [← Array.getElem?_toList, ← List.head?_drop, h, List.head?_cons]
  refine ⟨by rw [node, hget, Option.getD_some], ?_⟩
  rw [← List.tail_drop, h, List.tail_cons]

theorem drop_of_drop_cons {p : Option Nat} {i : Nat} {tree : ParseTree} {trees : List ParseTree} {rest : List Node}
    (h : t.nodes.toList.drop i = ParseTree.numberAll p i (tree :: trees) ++ rest) :
    t.nodes.toList.drop i = tree.number p i ++ (ParseTree.numberAll p (i + tree.size) trees ++ rest) ∧
      t.nodes.toList.drop (i + tree.size) = ParseTree.numberAll p (i + tree.size) trees ++ rest := by
  rw [ParseTree.numberAll, List.append_assoc] at h
  refine ⟨h, ?_⟩
  rw [← List.drop_drop, h, ← ParseTree.length_number p i tree, List.drop_left]

mutual

/-- Where the nodes from a number on are those of a tree, the tree is built
again. -/
theorem rebuild_number {p : Option Nat} {i : Nat} :
    ∀ (tree : ParseTree) (rest : List Node), t.nodes.toList.drop i = tree.number p i ++ rest → t.rebuild i = tree
  | .node label children, rest, h => by
    obtain ⟨hnode, hbelow⟩ := node_of_drop h
    rw [rebuild_eq, SyntaxTree.children, hnode]
    exact congrArg (ParseTree.node label) (map_rebuild_numberAll children rest hbelow)

theorem map_rebuild_numberAll {p : Option Nat} {i : Nat} :
    ∀ (trees : List ParseTree) (rest : List Node), t.nodes.toList.drop i = ParseTree.numberAll p i trees ++ rest →
      (ParseTree.roots i trees).map t.rebuild = trees
  | [], _, _ => rfl
  | tree :: trees, rest, h => by
    obtain ⟨hfirst, hlater⟩ := drop_of_drop_cons h
    rw [ParseTree.roots, List.map_cons, rebuild_number tree _ hfirst, map_rebuild_numberAll trees rest hlater]

end

/-! ## The copy -/

theorem nodes_ofParseTree (path : Path) (source : Array UInt8) (tree : ParseTree) (hasError : Bool) :
    (ofParseTree path source tree hasError).nodes.toList = tree.number none 0 :=
  congrArg Array.toList (Walk.copy_eq tree)

/-- **The copy of a parse tree is faithful.** The walk with the cursor gives one
node for each node of the tree, in document order, with the label of that node and
its kind. The root has no parent; each other node has one, with a smaller number. A
node is among the children of another exactly if that is its parent, and children
stand in increasing order. From the root and the lists of children, the tree can be
built again. -/
theorem copy_faithful (path : Path) (source : Array UInt8) (tree : ParseTree) (hasError : Bool) :
    let t := ofParseTree path source tree hasError
    t.nodes = Walk.copy tree ∧ t.size = tree.size ∧
      (∀ i label, ((tree.rows 0).map Prod.snd)[i]? = some label →
        (t.node i).label = label ∧ t.kind i = Kind.ofGrammar label.type label.named) ∧
      t.parent root = none ∧ (∀ i < t.size, i ≠ root → ∃ p < i, t.parent i = some p) ∧
      (∀ i p, i ∈ t.children p ↔ t.parent i = some p) ∧
      (∀ p, (t.children p).Pairwise (· < ·)) ∧
      t.rebuild root = tree := by
  intro t
  have ht : t.IsParse := ⟨path, source, tree, hasError, rfl⟩
  have hnodes : t.nodes.toList = tree.number none 0 := nodes_ofParseTree path source tree hasError
  have hnode : ∀ {i : Nat} {n : Node}, (tree.number none 0)[i]? = some n → t.node i = n := node_ofParseTree
  refine ⟨rfl, ?size, ?labels, ?root, ?parents, ?links, ?children, ?rebuilt⟩
  case size => rw [size, ← Array.length_toList, hnodes, ParseTree.length_number]
  case labels =>
    intro i label hlabel
    rw [← ParseTree.labels_number (p := none) (i := 0) tree, List.getElem?_map, Option.map_eq_some_iff] at hlabel
    obtain ⟨n, hn, rfl⟩ := hlabel
    rw [kind, type, isNamed, hnode hn]
    exact ⟨rfl, rfl⟩
  case root =>
    obtain ⟨label, children⟩ := tree
    rw [parent, hnode (i := root) rfl]
  case parents =>
    intro i hi h0
    obtain ⟨p, hp, -⟩ := ht.exists_parent hi h0
    exact ⟨p, t.parent_lt hp, hp⟩
  case links => exact fun i p => ⟨ht.parent_of_mem_children, ht.mem_children_of_parent⟩
  case children =>
    intro p
    rw [SyntaxTree.children, node]
    cases hget : t.nodes[p]? with
    | none => exact List.Pairwise.nil
    | some n =>
      have hmem : n ∈ tree.number none 0 := hnodes ▸ List.mem_of_getElem? (Array.getElem?_toList ▸ hget)
      exact ParseTree.children_number tree n hmem
  case rebuilt => exact rebuild_number tree [] (by rw [root, List.drop_zero, hnodes, List.append_nil])

end SyntaxTree

end CommandTrace
