/-
The walks over the tree of a file agree with the tree and with each other.

Downward, a walk keeps the nodes to come on a stack. What is on the stack stands
for the subtrees that are left (`toList_visit`), so the walk makes the recursive
listing; and since the nodes of a tree are numbered in document order, the
listing of a node is the interval of numbers that its tree takes up
(`preorder_number`). Upward, a walk follows the parents to the root. The two
directions are dual: `IsParse.mem_subtree_iff`.
-/
import CommandTrace.Proofs.FaithfulCopy

namespace CommandTrace

namespace ParseTree

mutual

/-- The trees below the nodes of a tree, in document order. -/
def subtrees : ParseTree → List ParseTree
  | node label children => node label children :: forestSubtrees children

/-- The trees below the nodes of a list of trees. -/
def forestSubtrees : List ParseTree → List ParseTree
  | [] => []
  | tree :: trees => subtrees tree ++ forestSubtrees trees

end

mutual

theorem length_subtrees : ∀ tree : ParseTree, tree.subtrees.length = tree.size
  | node label children => by
    rw [subtrees, List.length_cons, length_forestSubtrees children, size, Nat.add_comm]

theorem length_forestSubtrees : ∀ trees : List ParseTree, (forestSubtrees trees).length = forestSize trees
  | [] => rfl
  | tree :: trees => by
    rw [forestSubtrees, List.length_append, length_subtrees tree, length_forestSubtrees trees, forestSize]

end

mutual

/-- From the number of a node on come the nodes of the tree below it. -/
theorem drop_number {p : Option Nat} {i k : Nat} {below : ParseTree} :
    ∀ tree : ParseTree, tree.subtrees[k]? = some below →
      ∃ q rest, (number p i tree).drop k = below.number q (i + k) ++ rest
  | node label children, h => by
    cases k with
    | zero =>
      rw [subtrees, List.getElem?_cons_zero, Option.some.injEq] at h
      exact ⟨p, [], by rw [h, List.drop_zero, Nat.add_zero, List.append_nil]⟩
    | succ k =>
      rw [subtrees, List.getElem?_cons_succ] at h
      obtain ⟨q, rest, hdrop⟩ := drop_numberAll (p := some i) (i := i + 1) children h
      refine ⟨q, rest, ?_⟩
      rw [number, List.drop_succ_cons, hdrop, Nat.add_assoc, Nat.add_comm 1]

theorem drop_numberAll {p : Option Nat} {i k : Nat} {below : ParseTree} :
    ∀ trees : List ParseTree, (forestSubtrees trees)[k]? = some below →
      ∃ q rest, (numberAll p i trees).drop k = below.number q (i + k) ++ rest
  | [], h => by simp [forestSubtrees] at h
  | tree :: trees, h => by
    have hsize := length_subtrees tree
    have hlength := length_number p i tree
    rw [forestSubtrees] at h
    by_cases hk : k < tree.size
    · rw [List.getElem?_append_left (by omega)] at h
      obtain ⟨q, rest, hdrop⟩ := drop_number (p := p) (i := i) tree h
      refine ⟨q, rest ++ numberAll p (i + tree.size) trees, ?_⟩
      rw [numberAll, List.drop_append_of_le_length (by omega), hdrop, List.append_assoc]
    · rw [List.getElem?_append_right (by omega), hsize] at h
      obtain ⟨q, rest, hdrop⟩ := drop_numberAll (p := p) (i := i + tree.size) trees h
      have hi : i + tree.size + (k - tree.size) = i + k := by omega
      refine ⟨q, rest, ?_⟩
      rw [numberAll, List.drop_append, List.drop_eq_nil_of_le (by omega), hlength, List.nil_append, hdrop, hi]

end

end ParseTree

namespace SyntaxTree

variable {t : SyntaxTree}

/-! ## Downward -/

theorem toList_visit_singleton (i : Nat) : (t.visit #[] [i]).toList = t.subtree i := by
  rw [toList_visit, List.nil_append, List.flatMap_singleton, subtree_eq_preorder]

mutual

/-- Where the nodes from a number on are those of a tree, the listing has the
numbers that the tree takes up. -/
theorem preorder_number {p : Option Nat} {i : Nat} :
    ∀ (tree : ParseTree) (rest : List Node), t.nodes.toList.drop i = tree.number p i ++ rest →
      t.preorder i = List.range' i tree.size
  | .node label children, rest, h => by
    obtain ⟨hnode, hbelow⟩ := node_of_drop h
    rw [preorder_eq, SyntaxTree.children, hnode, flatMap_preorder_numberAll children rest hbelow, ParseTree.size,
      Nat.add_comm 1, List.range'_succ]

theorem flatMap_preorder_numberAll {p : Option Nat} {i : Nat} :
    ∀ (trees : List ParseTree) (rest : List Node), t.nodes.toList.drop i = ParseTree.numberAll p i trees ++ rest →
      (ParseTree.roots i trees).flatMap t.preorder = List.range' i (ParseTree.forestSize trees)
  | [], _, _ => rfl
  | tree :: trees, rest, h => by
    obtain ⟨hfirst, hlater⟩ := drop_of_drop_cons h
    rw [ParseTree.roots, List.flatMap_cons, preorder_number tree _ hfirst, flatMap_preorder_numberAll trees rest hlater,
      ParseTree.forestSize, List.range'_append_1]

end

/-! ## Upward -/

theorem ancestors_eq_nil {m : Nat} (h : t.parent m = none) : t.ancestors m = [] := by
  refine List.eq_nil_iff_forall_not_mem.2 fun a ha => ?_
  obtain ⟨p, hp, -⟩ := mem_ancestors.1 ha
  rw [h] at hp
  cases hp

theorem ancestors_root : t.ancestors root = [] :=
  ancestors_eq_nil <| Option.eq_none_iff_forall_ne_some.2 fun p hp => Nat.not_lt_zero p (t.parent_lt hp)

theorem le_of_mem_scopes {m a : Nat} (h : a ∈ t.scopes m) : a ≤ m := by
  induction m using Nat.strongRecOn with
  | ind m ih =>
    rcases List.mem_cons.1 h with rfl | h
    · exact Nat.le_refl a
    · obtain ⟨p, hp, ha⟩ := mem_ancestors.1 h
      have hlt := t.parent_lt hp
      exact Nat.le_of_lt (Nat.lt_of_le_of_lt (ih p hlt ha) hlt)

theorem pairwise_scopes (m : Nat) : (t.scopes m).Pairwise (· > ·) := by
  induction m using Nat.strongRecOn with
  | ind m ih =>
    rw [scopes, List.pairwise_cons]
    cases hp : t.parent m with
    | none =>
      rw [ancestors_eq_nil hp]
      exact ⟨by simp, List.Pairwise.nil⟩
    | some p =>
      have hlt := t.parent_lt hp
      rw [ancestors_eq_cons hp]
      exact ⟨fun a ha => Nat.lt_of_le_of_lt (le_of_mem_scopes ha) hlt, ih p hlt⟩

theorem IsParse.getLast?_scopes (ht : t.IsParse) {m : Nat} (h : m < t.size) : (t.scopes m).getLast? = some root := by
  induction m using Nat.strongRecOn with
  | ind m ih =>
    by_cases h0 : m = root
    · rw [h0, scopes, ancestors_root, List.getLast?_singleton]
    · obtain ⟨p, hp, -⟩ := ht.exists_parent h h0
      have hlt := t.parent_lt hp
      rw [scopes, ancestors_eq_cons hp, List.getLast?_cons, ih p hlt (Nat.lt_trans hlt h), Option.getD_some]

theorem IsParse.getLast?_ancestors (ht : t.IsParse) {m : Nat} (h : m < t.size) :
    (t.ancestors m).getLast? = if m = root then none else some root := by
  split
  case isTrue h0 => rw [h0, ancestors_root, List.getLast?_nil]
  case isFalse h0 =>
    obtain ⟨p, hp, -⟩ := ht.exists_parent h h0
    rw [ancestors_eq_cons hp, ht.getLast?_scopes (Nat.lt_trans (t.parent_lt hp) h)]

/-! ## Both directions -/

theorem IsParse.mem_scopes_of_mem_subtree (ht : t.IsParse) {n m : Nat} (h : m ∈ t.subtree n) : n ∈ t.scopes m := by
  induction n using preorder.induct t with
  | case1 n ih =>
    rcases List.mem_cons.1 h with rfl | h
    · exact mem_scopes_self m
    · obtain ⟨c, hc, hm⟩ := mem_descendants.1 h
      have hparent : n ∈ t.scopes c := List.mem_cons_of_mem _ <|
        mem_ancestors.2 ⟨n, ht.parent_of_mem_children hc, mem_scopes_self n⟩
      exact scopes_trans (ih c hc hm) hparent

theorem IsParse.mem_subtree_iff (ht : t.IsParse) {n m : Nat} : m ∈ t.subtree n ↔ n ∈ t.scopes m :=
  ⟨ht.mem_scopes_of_mem_subtree, ht.mem_subtree_of_mem_scopes⟩

/-- **The walks agree with the tree and with each other.** From any node of a
parse, the walk with a stack gives the recursive listing of the tree below it,
which is the interval of as many numbers as that tree has nodes; the nodes of a
kind are those of the interval, in order. A node is below another exactly if the
walk from the one up to the root comes to the other, and on the way up the numbers
get smaller. -/
theorem walks_agree (path : Path) (source : Array UInt8) (tree : ParseTree) (hasError : Bool) :
    let t := ofParseTree path source tree hasError
    (∀ n < t.size, ∃ below, tree.subtrees[n]? = some below ∧ t.rebuild n = below ∧
        t.subtree n = List.range' n below.size ∧
        t.subtree n = (t.visit #[] [n]).toList ∧ t.subtree n = t.preorder n ∧
        ∀ kind, t.ofKind kind n = (List.range' n below.size).filter fun m => t.kind m == kind) ∧
      (∀ n m, m ∈ t.subtree n ↔ n ∈ t.scopes m) ∧
      ∀ m < t.size, (t.scopes m).Pairwise (· > ·) ∧ (t.scopes m).getLast? = some root ∧
        (t.ancestors m).getLast? = if m = root then none else some root := by
  intro t
  have ht : t.IsParse := ⟨path, source, tree, hasError, rfl⟩
  have hnodes : t.nodes.toList = tree.number none 0 := nodes_ofParseTree path source tree hasError
  refine ⟨?down, fun n m => ht.mem_subtree_iff,
    fun m hm => ⟨pairwise_scopes m, ht.getLast?_scopes hm, ht.getLast?_ancestors hm⟩⟩
  case down =>
    intro n hn
    have hsize : t.size = tree.subtrees.length := by
      rw [size, ← Array.length_toList, hnodes, ParseTree.length_number, ParseTree.length_subtrees]
    obtain ⟨below, hbelow⟩ : ∃ below, tree.subtrees[n]? = some below :=
      ⟨_, List.getElem?_eq_getElem (hsize ▸ hn)⟩
    -- from this number on, the nodes are those of the tree below and then others
    obtain ⟨q, rest, hdrop⟩ := ParseTree.drop_number (p := none) (i := 0) tree hbelow
    rw [Nat.zero_add, ← hnodes] at hdrop
    have hrange : t.subtree n = List.range' n below.size :=
      (subtree_eq_preorder n).trans (preorder_number below rest hdrop)
    refine ⟨below, hbelow, rebuild_number below rest hdrop, hrange, (toList_visit_singleton n).symm,
      subtree_eq_preorder n, ?_⟩
    intro kind
    rw [ofKind, hrange]

namespace Calls

def source : Array UInt8 := "a(b(c),d)".toUTF8.data

/-- The call `b(c)`. -/
def inner : ParseTree :=
  .node ⟨"invocation_expression", none, 2, 6, true⟩
    [.node ⟨"identifier", some "function", 2, 3, true⟩ [],
      .node ⟨"argument_list", some "arguments", 3, 6, true⟩
        [.node ⟨"argument", none, 4, 5, true⟩ [.node ⟨"identifier", none, 4, 5, true⟩ []]]]

/-- The call `a(b(c),d)`, in which node 4 is the argument `b(c)`. -/
def outer : ParseTree :=
  .node ⟨"compilation_unit", none, 0, 9, true⟩
    [.node ⟨"invocation_expression", none, 0, 9, true⟩
      [.node ⟨"identifier", some "function", 0, 1, true⟩ [],
        .node ⟨"argument_list", some "arguments", 1, 9, true⟩
          [.node ⟨"argument", none, 2, 6, true⟩ [inner],
            .node ⟨"argument", none, 7, 8, true⟩ [.node ⟨"identifier", none, 7, 8, true⟩ []]]]]

def tree : SyntaxTree := .ofParseTree (.ofString "A.cs") source outer false

/-- The argument `b(c)` takes up the numbers from 4 to 9, with `b` and `c` among
them, and so it is on the way from `c` up to the root. -/
theorem argument_walked :
    4 < tree.size ∧ tree.subtree 4 = [4, 5, 6, 7, 8, 9] ∧ (tree.visit #[] [4]).toList = [4, 5, 6, 7, 8, 9] ∧
      tree.ofKind .identifier 4 = [6, 9] ∧ 4 ∈ tree.scopes 9 ∧ (tree.scopes 9).getLast? = some root := by
  obtain ⟨hdown, hdual, hup⟩ := walks_agree (.ofString "A.cs") source outer false
  have hsize : 9 < tree.size := by decide +kernel
  obtain ⟨below, hbelow, -, hrange, hvisit, -, hkind⟩ := hdown 4 (Nat.lt_trans (by decide) hsize)
  have hcount : below.size = 6 := by
    obtain rfl : _ = below := Option.some.inj hbelow
    rfl
  rw [hcount] at hrange hkind
  refine ⟨Nat.lt_trans (by decide) hsize, hrange, hvisit.symm.trans hrange, ?_, ?_, (hup 9 hsize).2.1⟩
  · exact (hkind .identifier).trans (by decide +kernel)
  · exact (hdual 4 9).1 (hrange ▸ by decide)

end Calls

end SyntaxTree

end CommandTrace
