/-
Parsed files as numbered trees.

The nodes of a parse tree are numbered in document order, the root first, and
refer to each other by number. A `SyntaxTree` holds them with the source they
cover. Two facts stand in its type, since every walk ends by them: a parent
has a smaller number than its child, and a child is one of the nodes.
`SyntaxTree.ofParseTree` makes one.
-/
import CommandTrace.Encoding.Utf8
import CommandTrace.Path
import CommandTrace.Syntax.Cursor
import CommandTrace.Syntax.Kind

namespace CommandTrace

/-- A parsed source file. Node 0 is the root. -/
structure SyntaxTree where
  path : Path
  source : Array UInt8
  hasError : Bool
  nodes : Array Node
  linked : ∀ (i : Nat) (n : Node), nodes[i]? = some n → ParseTree.Linked i nodes.size n

namespace SyntaxTree

/-- The parse of a file's content. -/
def ofParseTree (path : Path) (source : Array UInt8) (tree : ParseTree) (hasError : Bool) : SyntaxTree where
  path := path
  source := source
  hasError := hasError
  nodes := Walk.copy tree
  linked := by
    intro i n h
    rw [Walk.copy_eq, List.getElem?_toArray] at h
    rw [Walk.copy_eq, List.size_toArray, ParseTree.length_number]
    have := ParseTree.linked_number (fun q hq => by simp at hq) tree i n h
    simpa using this

variable (t : SyntaxTree)

def size : Nat :=
  t.nodes.size

/-- The node of a number; one without links where there is none. -/
def node (i : Nat) : Node :=
  t.nodes[i]?.getD default

def root : Nat := 0

theorem linked_node (i : Nat) : ParseTree.Linked i t.size (t.node i) := by
  unfold node
  cases h : t.nodes[i]? with
  | some n => exact t.linked i n h
  | none => exact ⟨fun p hp => by simp [default, instInhabitedNode.default] at hp,
      fun c hc => by simp [default, instInhabitedNode.default] at hc⟩

/-! ## One node -/

def type (i : Nat) : String :=
  (t.node i).label.type

def isNamed (i : Nat) : Bool :=
  (t.node i).label.named

def start (i : Nat) : Nat :=
  (t.node i).label.start

def kind (i : Nat) : Kind :=
  Kind.ofGrammar (t.type i) (t.isNamed i)

/-- The source a node covers, as far as there is any. -/
def text (i : Nat) : String :=
  let label := (t.node i).label
  String.ofList (Encoding.Utf8.decode (t.source.extract label.start label.stop).toList)

/-- One more than the number of line feeds before a node. -/
def line (i : Nat) : Nat :=
  (t.source.extract 0 (t.start i)).count 0x0A + 1

/-! ## Parent and children -/

def parent (i : Nat) : Option Nat :=
  (t.node i).parent

def children (i : Nat) : List Nat :=
  (t.node i).children

theorem parent_lt {i p : Nat} (h : t.parent i = some p) : p < i :=
  (t.linked_node i).1 p h

theorem lt_of_mem_children {i c : Nat} (h : c ∈ t.children i) : i < c ∧ c < t.size :=
  (t.linked_node i).2 c h

def namedChildren (i : Nat) : List Nat :=
  (t.children i).filter t.isNamed

/-- The first child under a field of the grammar. -/
def childByField (i : Nat) (field : String) : Option Nat :=
  (t.children i).find? fun c => (t.node c).label.field == some field

def childOfKind (i : Nat) (kinds : List Kind) : Option Nat :=
  (t.children i).find? fun c => kinds.contains (t.kind c)

/-! ## Walks -/

/-- From the parent of a node up to the root. -/
def ancestors (i : Nat) : List Nat :=
  match _h : t.parent i with
  | none => []
  | some p => p :: ancestors p
termination_by i
decreasing_by exact t.parent_lt ‹_›

/-- From a node up to the root. -/
def scopes (i : Nat) : List Nat :=
  i :: t.ancestors i

/-- The nearest node above of one of the kinds. -/
def enclosing (i : Nat) (kinds : List Kind) : Option Nat :=
  (t.ancestors i).find? fun a => kinds.contains (t.kind a)

/-- A node and the nodes below it in document order, read off the lists of
children. -/
def preorder (i : Nat) : List Nat :=
  i :: (t.children i).attach.flatMap fun ⟨c, _⟩ => preorder c
termination_by t.size - i
decreasing_by
  rename_i h
  have := t.lt_of_mem_children h
  omega

theorem preorder_eq (i : Nat) : t.preorder i = i :: (t.children i).flatMap t.preorder := by
  rw [preorder]
  simp

/-- Visits the nodes on a stack and those below them. Each step takes the node on
top and pushes its children, the last of them first. What is on the stack says
which nodes are still to come, and each step leaves one fewer. -/
def visit (visited : Array Nat) : (stack : List Nat) → Array Nat
  | [] => visited
  | i :: rest => visit (visited.push i) ((t.children i).foldr (· :: ·) rest)
termination_by stack => (stack.flatMap t.preorder).length
decreasing_by simp [preorder_eq t i]

/-- The nodes below a node, in document order. -/
def descendants (i : Nat) : List Nat :=
  (t.visit #[] (t.children i)).toList

/-- A node and the nodes below it, in document order. -/
def subtree (i : Nat) : List Nat :=
  i :: t.descendants i

def ofKind (kind : Kind) (within : Nat) : List Nat :=
  (t.subtree within).filter fun i => t.kind i == kind

end SyntaxTree

end CommandTrace
