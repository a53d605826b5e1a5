/-
The tree a parser hands over, and reading it off a listing.

A listing has one row for each node in document order, with the node's depth.
`ParseTree.ofRows?` reads it from the last row to the first: a row takes the
deeper trees that stand right after it as its children.
-/

namespace CommandTrace

/-- What a parser says of one node: its type in the grammar, the field of its
parent it stands under, the bytes it covers, and whether it is named. -/
structure Label where
  type : String
  field : Option String
  start : Nat
  stop : Nat
  named : Bool
deriving DecidableEq, Repr, Inhabited

inductive ParseTree where
  | node (label : Label) (children : List ParseTree)

namespace ParseTree

def label : ParseTree → Label
  | node label _ => label

def children : ParseTree → List ParseTree
  | node _ children => children

mutual

/-- The number of nodes of a tree. -/
def size : ParseTree → Nat
  | node _ children => 1 + forestSize children

/-- The number of nodes of a list of trees. -/
def forestSize : List ParseTree → Nat
  | [] => 0
  | tree :: trees => size tree + forestSize trees

end

mutual

/-- The nodes of a tree in document order, with their depths. -/
def rows (depth : Nat) : ParseTree → List (Nat × Label)
  | node label children => (depth, label) :: forestRows (depth + 1) children

/-- The nodes of a list of trees of one depth. -/
def forestRows (depth : Nat) : List ParseTree → List (Nat × Label)
  | [] => []
  | tree :: trees => rows depth tree ++ forestRows depth trees

end

/-- Puts a row before a list of trees with their depths: the deeper ones right
after it become its children. -/
def addRow (row : Nat × Label) (trees : List (Nat × ParseTree)) : List (Nat × ParseTree) :=
  let deeper := trees.takeWhile fun t => row.1 < t.1
  (row.1, node row.2 (deeper.map Prod.snd)) :: trees.drop deeper.length

/-- The tree of a listing. -/
def ofRows? (rows : List (Nat × Label)) : Option ParseTree :=
  match rows.foldr addRow [] with
  | [(_, tree)] => some tree
  | _ => none

end ParseTree

end CommandTrace
