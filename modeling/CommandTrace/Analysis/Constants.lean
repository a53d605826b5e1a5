/-
Names that start with a literal, across a whole file: a table from a
variable's name, after the names of the types around it, to the literal. The
first definition of a name counts.
-/
import CommandTrace.Syntax.Declaration
import CommandTrace.Syntax.Literal

namespace CommandTrace.SyntaxTree

variable (t : SyntaxTree)

/-- The entry that a declarator adds: its qualified name and the literal it
starts with, where both are there. -/
def constant? (i : Nat) : Except Fault (Option (String × Text)) :=
  match (t.declaratorValue i).filter fun v => t.kind v = .literal with
  | none => .ok none
  | some v => do
    let value ← t.literalValue v
    return match t.declaratorName i with
      | none | some "" => none
      | some name => if value = [] then none else some (t.qualifiedName name i, value)

/-- Adds the entries of the declarators to a table, in turn. -/
def constantsFrom (table : List (String × Text)) : List Nat → Except Fault (List (String × Text))
  | [] => .ok table
  | i :: rest => do
    match ← t.constant? i with
    | some (name, value) =>
      constantsFrom (if table.any fun entry => entry.1 = name then table else table ++ [(name, value)]) rest
    | none => constantsFrom table rest

def constants : Except Fault (List (String × Text)) :=
  t.constantsFrom [] (t.ofKind .declarator root)

end CommandTrace.SyntaxTree
