/-
Copying a parse tree with a cursor.

A parser hands its tree over through a cursor, which stands at a node and can be
moved to the node's first child, its next sibling or its parent. The copy is made
in one walk. The cursor goes down where it can and else on to the nearest sibling
that is left, and each node it comes to gets the next number. The numbers of the
nodes above the cursor are on a stack; one is put there for each step down and
taken off for each step up, so there is always one for each node above.

The walk ends, since each step leaves fewer nodes to come (`Cursor.remaining`),
and what it makes is the numbering of the tree: `Walk.copy_eq`.
-/
import CommandTrace.Syntax.Numbering

namespace CommandTrace

structure Cursor where
  /-- The tree below the node that the cursor stands at. -/
  focus : ParseTree
  /-- The siblings after it. -/
  later : List ParseTree := []
  /-- The nodes above, the nearest first, each with the siblings after it. -/
  above : List (ParseTree × List ParseTree) := []

namespace Cursor

def firstChild? (c : Cursor) : Option Cursor :=
  match c.focus.children with
  | [] => none
  | child :: others => some ⟨child, others, (c.focus, c.later) :: c.above⟩

def nextSibling? (c : Cursor) : Option Cursor :=
  match c.later with
  | [] => none
  | next :: others => some ⟨next, others, c.above⟩

def parent? (c : Cursor) : Option Cursor :=
  match c.above with
  | [] => none
  | (focus, later) :: above => some ⟨focus, later, above⟩

theorem length_above_firstChild? {c child : Cursor} (h : c.firstChild? = some child) :
    child.above.length = c.above.length + 1 := by
  unfold firstChild? at h
  split at h <;> cases h
  rfl

theorem above_nextSibling? {c next : Cursor} (h : c.nextSibling? = some next) : next.above = c.above := by
  unfold nextSibling? at h
  split at h <;> cases h
  rfl

theorem length_above_parent? {c up : Cursor} (h : c.parent? = some up) : c.above.length = up.above.length + 1 := by
  unfold parent? at h
  split at h <;> cases h
  simp [*]

theorem firstChild?_eq_none {c : Cursor} (h : c.firstChild? = none) : c.focus = .node c.focus.label [] := by
  obtain ⟨⟨label, children⟩, later, above⟩ := c
  cases children with
  | nil => rfl
  | cons first others => cases h

/-- The number of nodes after those below a node, from the nodes above it. -/
def afterAbove : List (ParseTree × List ParseTree) → Nat
  | [] => 0
  | (_, later) :: above => ParseTree.forestSize later + afterAbove above

/-- The number of nodes after those below the cursor. -/
def after (c : Cursor) : Nat :=
  ParseTree.forestSize c.later + afterAbove c.above

/-- The number of nodes from the one that the cursor stands at on. -/
def remaining (c : Cursor) : Nat :=
  c.focus.size + c.after

theorem remaining_firstChild? {c child : Cursor} (h : c.firstChild? = some child) :
    child.remaining < c.remaining := by
  obtain ⟨⟨label, children⟩, later, above⟩ := c
  cases children with
  | nil => cases h
  | cons first others =>
    cases h
    simp only [remaining, after, afterAbove, ParseTree.size, ParseTree.forestSize]
    omega

end Cursor

/-- A walk with a cursor, and the numbers of the nodes above it, the nearest
first. -/
structure Walk where
  cursor : Cursor
  parents : List Nat
  aligned : parents.length = cursor.above.length

namespace Walk

/-! ## The walk -/

/-- At the root of a tree. -/
def start (tree : ParseTree) : Walk :=
  ⟨{ focus := tree }, [], rfl⟩

/-- Down from a node with a number. -/
def down? (w : Walk) (number : Nat) : Option Walk :=
  match h : w.cursor.firstChild? with
  | none => none
  | some child =>
    some ⟨child, number :: w.parents, by rw [List.length_cons, w.aligned, Cursor.length_above_firstChild? h]⟩

/-- On to the next sibling of the node or of the nearest node above that has
one. -/
def onward? (w : Walk) : Option Walk :=
  match hnext : w.cursor.nextSibling? with
  | some next => some ⟨next, w.parents, by rw [w.aligned, Cursor.above_nextSibling? hnext]⟩
  | none =>
    match hup : w.cursor.parent? with
    | none => none
    | some up =>
      onward? ⟨up, w.parents.tail, by
        rw [List.length_tail, w.aligned, Cursor.length_above_parent? hup, Nat.add_sub_cancel]⟩
termination_by w.cursor.above.length
decreasing_by
  rw [Cursor.length_above_parent? hup]
  exact Nat.lt_succ_self _

theorem onward?_sibling {focus next : ParseTree} {others : List ParseTree}
    {above : List (ParseTree × List ParseTree)} {parents : List Nat} (h : parents.length = above.length) :
    onward? ⟨⟨focus, next :: others, above⟩, parents, h⟩ = some ⟨⟨next, others, above⟩, parents, h⟩ := by
  rw [onward?]
  rfl

theorem onward?_root {focus : ParseTree} {parents : List Nat} (h : parents.length = 0) :
    onward? ⟨⟨focus, [], []⟩, parents, h⟩ = none := by
  rw [onward?]
  rfl

theorem onward?_up {focus up : ParseTree} {later : List ParseTree} {above : List (ParseTree × List ParseTree)}
    {p : Nat} {parents : List Nat} (h : parents.length = above.length) :
    onward? ⟨⟨focus, [], (up, later) :: above⟩, p :: parents, congrArg (· + 1) h⟩ =
      onward? ⟨⟨up, later, above⟩, parents, h⟩ := by
  rw [onward?]
  rfl

/-- What holds of a step aside and of the end, and is kept by a step up, holds
of the way onward. -/
theorem onward?_induction {motive : Walk → Option Walk → Prop}
    (sibling : ∀ focus next others above parents h,
      motive ⟨⟨focus, next :: others, above⟩, parents, h⟩ (some ⟨⟨next, others, above⟩, parents, h⟩))
    (root : ∀ focus, motive (start focus) none)
    (step : ∀ focus up later above p parents h onward, motive ⟨⟨up, later, above⟩, parents, h⟩ onward →
      motive ⟨⟨focus, [], (up, later) :: above⟩, p :: parents, congrArg (· + 1) h⟩ onward)
    (w : Walk) : motive w w.onward? := by
  obtain ⟨⟨focus, later, above⟩, parents, h⟩ := w
  induction above generalizing focus later parents with
  | nil =>
    obtain rfl : parents = [] := List.length_eq_zero_iff.1 h
    cases later with
    | nil =>
      rw [onward?_root]
      exact root focus
    | cons next others =>
      rw [onward?_sibling]
      exact sibling focus next others [] [] h
  | cons frame above ih =>
    obtain ⟨up, rest⟩ := frame
    cases later with
    | nil =>
      cases parents with
      | nil => cases h
      | cons p parents =>
        rw [onward?_up (Nat.succ.inj h)]
        exact step focus up rest above p parents _ _ (ih parents up rest (Nat.succ.inj h))
    | cons next others =>
      rw [onward?_sibling]
      exact sibling focus next others ((up, rest) :: above) parents h

/-- To the next node in document order, from a node with a number. -/
def next? (w : Walk) (number : Nat) : Option Walk :=
  match w.down? number with
  | some child => some child
  | none => w.onward?

theorem remaining_onward? {w next : Walk} (h : w.onward? = some next) :
    next.cursor.remaining = w.cursor.after := by
  refine onward?_induction (motive := fun w onward => ∀ next ∈ onward, next.cursor.remaining = w.cursor.after)
    ?sibling ?root ?step w next h
  case sibling =>
    intro focus next others above parents _ w hw
    obtain rfl := Option.some.inj hw
    simp only [Cursor.remaining, Cursor.after, ParseTree.forestSize, Nat.add_assoc]
  case root => simp
  case step =>
    intro focus up later above p parents _ onward ih next hnext
    rw [ih next hnext]
    simp only [Cursor.after, Cursor.afterAbove, ParseTree.forestSize, Nat.zero_add]

theorem remaining_next? {w next : Walk} {number : Nat} (h : w.next? number = some next) :
    next.cursor.remaining < w.cursor.remaining := by
  unfold next? at h
  split at h
  · next child hdown =>
    obtain rfl := Option.some.inj h
    unfold down? at hdown
    split at hdown
    · cases hdown
    · next hchild =>
      cases hdown
      exact Cursor.remaining_firstChild? hchild
  · rw [remaining_onward? h, Cursor.remaining]
    exact Nat.lt_add_of_pos_left w.cursor.focus.size_pos

/-- Adds a node to those copied, and its number to the children of its
parent. -/
def addNode (nodes : Array Node) (parent : Option Nat) (label : Label) : Array Node :=
  let added := nodes.push ⟨label, parent, []⟩
  match parent with
  | none => added
  | some p => added.modify p fun n => { n with children := n.children ++ [nodes.size] }

/-- Copies the node at the cursor and all that come after it. -/
def copyFrom (nodes : Array Node) (w : Walk) : Array Node :=
  let added := addNode nodes w.parents.head? w.cursor.focus.label
  match _hnext : w.next? nodes.size with
  | some next => copyFrom added next
  | none => added
termination_by w.cursor.remaining
decreasing_by exact remaining_next? _hnext

/-- The numbered nodes of a tree. -/
def copy (tree : ParseTree) : Array Node :=
  copyFrom #[] (start tree)

/-! ## What the walk makes -/

/-- The nodes, with more children for one of them. -/
def addChildren (parent : Option Nat) (children : List Nat) (nodes : List Node) : List Node :=
  match parent with
  | none => nodes
  | some p => nodes.modify p fun n => { n with children := n.children ++ children }

theorem toList_addNode (nodes : Array Node) (parent : Option Nat) (label : Label) :
    (addNode nodes parent label).toList =
      addChildren parent [nodes.toList.length] (nodes.toList ++ [⟨label, parent, []⟩]) := by
  cases parent <;> simp [addNode, addChildren]

theorem addChildren_nil (parent : Option Nat) (nodes : List Node) : addChildren parent [] nodes = nodes := by
  cases parent with
  | none => rfl
  | some p =>
    simp only [addChildren, List.append_nil]
    exact List.modify_id p nodes

theorem addChildren_addChildren (parent : Option Nat) (children children' : List Nat) (nodes : List Node) :
    addChildren parent children' (addChildren parent children nodes) =
      addChildren parent (children ++ children') nodes := by
  cases parent with
  | none => rfl
  | some p => simp [addChildren, List.modify_modify_eq, Function.comp_def]

@[simp]
theorem length_addChildren (parent : Option Nat) (children : List Nat) (nodes : List Node) :
    (addChildren parent children nodes).length = nodes.length := by
  cases parent <;> simp [addChildren]

theorem addChildren_append {parent : Option Nat} {nodes : List Node} (h : ∀ p ∈ parent, p < nodes.length)
    (children : List Nat) (rest : List Node) :
    addChildren parent children (nodes ++ rest) = addChildren parent children nodes ++ rest := by
  cases parent with
  | none => rfl
  | some p =>
    have hp : p < nodes.length := h p rfl
    refine List.ext_getElem? fun i => ?_
    simp only [addChildren, List.getElem?_modify, List.getElem?_append, List.length_modify]
    by_cases hi : i < nodes.length
    · simp only [hi, if_true]
    · have hne : p ≠ i := by omega
      simp [hi, hne]

/-- The last node so far gets its children. -/
theorem addChildren_last (nodes : List Node) (n : Node) (children : List Nat) :
    addChildren (some nodes.length) children (nodes ++ [n]) =
      nodes ++ [{ n with children := n.children ++ children }] := by
  simp only [addChildren]
  induction nodes with
  | nil => rfl
  | cons first nodes ih => rw [List.cons_append, List.length_cons, List.modify_succ_cons, ih, List.cons_append]

/-- The nodes after a list of trees has been copied too. -/
def withForest (nodes : List Node) (parent : Option Nat) (trees : List ParseTree) : List Node :=
  addChildren parent (ParseTree.roots nodes.length trees) nodes ++ ParseTree.numberAll parent nodes.length trees

/-- The nodes after all that is left next to the nodes above has been copied
too. -/
def withAbove (nodes : List Node) (parents : List Nat) : List (ParseTree × List ParseTree) → List Node
  | [] => nodes
  | (_, later) :: above => withAbove (withForest nodes parents.tail.head? later) parents.tail above

theorem withForest_nil (nodes : List Node) (parent : Option Nat) : withForest nodes parent [] = nodes := by
  simp [withForest, ParseTree.roots, ParseTree.numberAll, addChildren_nil]

/-- A tree is copied by its root, then the trees below it, then those after
it. -/
theorem withForest_cons {parent : Option Nat} {nodes : List Node} (h : ∀ p ∈ parent, p < nodes.length)
    (label : Label) (children later : List ParseTree) :
    withForest (withForest (addChildren parent [nodes.length] (nodes ++ [⟨label, parent, []⟩]))
      (some nodes.length) children) parent later = withForest nodes parent (.node label children :: later) := by
  have hlength : (addChildren parent [nodes.length] nodes).length = nodes.length :=
    length_addChildren parent [nodes.length] nodes
  have hbelow : withForest (addChildren parent [nodes.length] nodes ++ [⟨label, parent, []⟩])
      (some nodes.length) children =
        addChildren parent [nodes.length] nodes ++ ParseTree.number parent nodes.length (.node label children) := by
    have hlast := addChildren_last (addChildren parent [nodes.length] nodes) ⟨label, parent, []⟩
      (ParseTree.roots (nodes.length + 1) children)
    rw [hlength] at hlast
    rw [withForest, List.length_append, hlength, List.length_singleton, hlast, ParseTree.number, List.append_assoc]
    rfl
  rw [addChildren_append h, hbelow, withForest, List.length_append, hlength, ParseTree.length_number,
    addChildren_append (by rwa [hlength]), addChildren_addChildren, withForest, ParseTree.roots,
    ParseTree.numberAll, List.append_assoc]
  rfl

theorem withForest_addNode {nodes : Array Node} {parents : List Nat} (h : ∀ p ∈ parents, p < nodes.size)
    (label : Label) (children later : List ParseTree) :
    withForest (withForest (addNode nodes parents.head? label).toList (some nodes.size) children)
      parents.head? later = withForest nodes.toList parents.head? (.node label children :: later) := by
  rw [toList_addNode, ← Array.length_toList]
  exact withForest_cons (fun p hp => h p (List.mem_of_mem_head? hp)) label children later

/-- The nodes after the rest of a walk has been copied too, if there is a
rest. -/
def complete (nodes : List Node) : Option Walk → List Node
  | none => nodes
  | some w =>
    withAbove (withForest nodes w.parents.head? (w.cursor.focus :: w.cursor.later)) w.parents w.cursor.above

theorem complete_onward? (nodes : List Node) (w : Walk) :
    complete nodes w.onward? =
      withAbove (withForest nodes w.parents.head? w.cursor.later) w.parents w.cursor.above := by
  refine onward?_induction (motive := fun w onward => complete nodes onward =
    withAbove (withForest nodes w.parents.head? w.cursor.later) w.parents w.cursor.above) ?sibling ?root ?step w
  case sibling => exact fun focus next others above parents _ => rfl
  case root => exact fun focus => (withForest_nil nodes none).symm
  case step =>
    intro focus up later above p parents _ onward ih
    rw [ih, withForest_nil, withAbove]
    rfl

theorem mem_parents_onward? {w next : Walk} (h : w.onward? = some next) {p : Nat} (hp : p ∈ next.parents) :
    p ∈ w.parents := by
  refine onward?_induction (motive := fun w onward => ∀ next ∈ onward, p ∈ next.parents → p ∈ w.parents)
    ?sibling ?root ?step w next h hp
  case sibling =>
    intro focus next others above parents _ w hw
    obtain rfl := Option.some.inj hw
    exact id
  case root => simp
  case step =>
    exact fun focus up later above q parents _ onward ih next hnext hp => List.mem_cons_of_mem q (ih next hnext hp)

theorem down?_eq_some {w child : Walk} {number : Nat} (h : w.down? number = some child) :
    w.cursor.firstChild? = some child.cursor ∧ child.parents = number :: w.parents := by
  unfold down? at h
  split at h
  · cases h
  · next hchild =>
    cases h
    exact ⟨hchild, rfl⟩

theorem down?_eq_none {w : Walk} {number : Nat} (h : w.down? number = none) : w.cursor.firstChild? = none := by
  unfold down? at h
  split at h
  · next hchild => exact hchild
  · cases h

/-- Copying one node and going on from the next is going on from the node. -/
theorem complete_next? {nodes : Array Node} {w : Walk} (h : ∀ p ∈ w.parents, p < nodes.size) :
    complete (addNode nodes w.parents.head? w.cursor.focus.label).toList (w.next? nodes.size) =
      complete nodes.toList (some w) := by
  unfold next?
  split
  · next child hdown =>
    obtain ⟨hchild, hparents⟩ := down?_eq_some hdown
    obtain ⟨⟨⟨label, children⟩, later, above⟩, parents, aligned⟩ := w
    cases children with
    | nil => cases hchild
    | cons first others =>
      simp only [complete, hparents, ← Option.some.inj hchild, withAbove]
      exact congrArg (withAbove · parents above) (withForest_addNode h label (first :: others) later)
  · next hdown =>
    have hnode := withForest_addNode h w.cursor.focus.label [] w.cursor.later
    rw [withForest_nil, ← Cursor.firstChild?_eq_none (down?_eq_none hdown)] at hnode
    rw [complete_onward?, hnode, complete]

theorem mem_parents_next? {w next : Walk} {number : Nat} (h : w.next? number = some next) {p : Nat}
    (hp : p ∈ next.parents) : p = number ∨ p ∈ w.parents := by
  unfold next? at h
  split at h
  · next child hdown =>
    obtain rfl := Option.some.inj h
    rw [(down?_eq_some hdown).2] at hp
    exact List.mem_cons.1 hp
  · exact .inr (mem_parents_onward? h hp)

theorem size_addNode (nodes : Array Node) (parent : Option Nat) (label : Label) :
    (addNode nodes parent label).size = nodes.size + 1 := by
  rw [← Array.length_toList, toList_addNode]
  simp

/-- From any point on, the walk adds all that is to come. -/
theorem toList_copyFrom (nodes : Array Node) (w : Walk) (h : ∀ p ∈ w.parents, p < nodes.size) :
    (copyFrom nodes w).toList = complete nodes.toList (some w) := by
  induction nodes, w using copyFrom.induct with
  | case1 nodes w added next hnext ih =>
    have hbound : ∀ p ∈ next.parents, p < added.size := by
      intro p hp
      rw [size_addNode]
      rcases mem_parents_next? hnext hp with rfl | hp
      · exact Nat.lt_succ_self _
      · exact Nat.lt_succ_of_lt (h p hp)
    rw [copyFrom, ← complete_next? h, hnext]
    exact ih hbound
  | case2 nodes w hnext =>
    rw [copyFrom, ← complete_next? h, hnext]
    rfl

/-- **The walk copies the tree**: it makes the numbering. -/
theorem copy_eq (tree : ParseTree) : copy tree = (tree.number none 0).toArray := by
  have h := toList_copyFrom #[] (start tree) (by simp [start])
  rw [← Array.toList_inj]
  simpa [copy, start, complete, withAbove, withForest, addChildren, ParseTree.numberAll] using h

end Walk

end CommandTrace
