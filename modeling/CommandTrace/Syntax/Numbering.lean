/-
The nodes of a parse tree, numbered in document order.

A numbered node refers to its parent and its children by number. `number` says
what the numbering of a tree is: the root comes first and then, one after the
other, the trees below it. A parent has a smaller number than its child, and a
child is one of the nodes (`linked_number`).
-/
import CommandTrace.Syntax.ParseTree

namespace CommandTrace

/-- A node of a numbered tree. Its own number is its place in the list. -/
structure Node where
  label : Label
  parent : Option Nat
  children : List Nat
deriving DecidableEq, Repr, Inhabited

namespace ParseTree

/-- The numbers of the roots of a list of trees, numbered from `i` on. -/
def roots (i : Nat) : List ParseTree → List Nat
  | [] => []
  | tree :: trees => i :: roots (i + tree.size) trees

mutual

/-- The nodes of a tree, numbered from `i` on, whose root has parent `p`. -/
def number (p : Option Nat) (i : Nat) : ParseTree → List Node
  | node label children => ⟨label, p, roots (i + 1) children⟩ :: numberAll (some i) (i + 1) children

/-- The nodes of a list of trees, numbered from `i` on, whose roots have
parent `p`. -/
def numberAll (p : Option Nat) (i : Nat) : List ParseTree → List Node
  | [] => []
  | tree :: trees => number p i tree ++ numberAll p (i + tree.size) trees

end

theorem size_pos : ∀ tree : ParseTree, 0 < tree.size
  | node _ _ => by rw [size]; omega

mutual

theorem length_number (p : Option Nat) (i : Nat) : ∀ tree : ParseTree, (number p i tree).length = tree.size
  | node label children => by
    simp [number, size, length_numberAll (some i) (i + 1) children, Nat.add_comm]

theorem length_numberAll (p : Option Nat) (i : Nat) :
    ∀ trees : List ParseTree, (numberAll p i trees).length = forestSize trees
  | [] => by simp [numberAll, forestSize]
  | tree :: trees => by
    simp [numberAll, forestSize, length_number p i tree, length_numberAll p (i + tree.size) trees]

end

theorem mem_roots {c : Nat} : ∀ {i : Nat} {trees : List ParseTree},
    c ∈ roots i trees → i ≤ c ∧ c < i + forestSize trees
  | i, tree :: trees, h => by
    have hpos := tree.size_pos
    simp only [roots, List.mem_cons] at h
    simp only [forestSize]
    rcases h with rfl | h
    · omega
    · have := mem_roots h
      omega

/-- The links of a node numbered `k`, among nodes numbered below `bound`: its
parent comes before it, its children after it. -/
def Linked (k bound : Nat) (n : Node) : Prop :=
  (∀ p, n.parent = some p → p < k) ∧ ∀ c ∈ n.children, k < c ∧ c < bound

mutual

theorem linked_number {p : Option Nat} {i : Nat} (hp : ∀ q, p = some q → q < i) :
    ∀ (tree : ParseTree) (k : Nat) (n : Node), (number p i tree)[k]? = some n →
      Linked (i + k) (i + tree.size) n
  | node label children, 0, n, h => by
    simp only [number, List.getElem?_cons_zero, Option.some.injEq] at h
    subst h
    refine ⟨hp, fun c hc => ?_⟩
    have := mem_roots hc
    simp only [size]
    omega
  | node label children, k + 1, n, h => by
    simp only [number, List.getElem?_cons_succ] at h
    have hq : ∀ q, some i = some q → q < i + 1 := by
      intro q hq
      simp only [Option.some.injEq] at hq
      omega
    have := linked_numberAll hq children k n h
    have e₁ : i + 1 + k = i + (k + 1) := by omega
    have e₂ : i + 1 + forestSize children = i + (1 + forestSize children) := by omega
    rw [e₁, e₂] at this
    exact this

theorem linked_numberAll {p : Option Nat} {i : Nat} (hp : ∀ q, p = some q → q < i) :
    ∀ (trees : List ParseTree) (k : Nat) (n : Node), (numberAll p i trees)[k]? = some n →
      Linked (i + k) (i + forestSize trees) n
  | [], k, n, h => by simp [numberAll] at h
  | tree :: trees, k, n, h => by
    simp only [numberAll, List.getElem?_append, length_number] at h
    simp only [forestSize]
    split at h
    · have ⟨h₁, h₂⟩ := linked_number hp tree k n h
      refine ⟨h₁, fun c hc => ?_⟩
      have := h₂ c hc
      omega
    · have hp' : ∀ q, p = some q → q < i + tree.size := fun q hq => by
        have := hp q hq
        omega
      have := linked_numberAll hp' trees (k - tree.size) n h
      have e₁ : i + tree.size + (k - tree.size) = i + k := by omega
      have e₂ : i + tree.size + forestSize trees = i + (tree.size + forestSize trees) := by omega
      rw [e₁, e₂] at this
      exact this

end

end ParseTree

end CommandTrace
