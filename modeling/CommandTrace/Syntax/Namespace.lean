/-
Namespaces in a syntax tree: which one a node is declared in, and which ones
it can name without qualification.
-/
import CommandTrace.Syntax.Declaration

namespace CommandTrace.SyntaxTree

variable (t : SyntaxTree)

/-- The grammar types of names. -/
def nameTypes : List String :=
  ["identifier", "qualified_name", "alias_qualified_name", "generic_name"]

def firstName (i : Nat) : Option Nat :=
  (t.namedChildren i).find? fun c => nameTypes.contains (t.type c)

def namespaceName (i : Nat) : String :=
  t.textOf ((t.childByField i "name").or (t.firstName i))

/-- The namespace declaration without a body that covers the whole file. -/
def fileNamespace : Option Nat :=
  (t.children root).find? fun c => t.type c = "file_scoped_namespace_declaration"

/-- The name of the namespace a node is declared in. -/
def enclosingNamespace (i : Nat) : Option String :=
  ((t.enclosing i [.namespaceDecl]).or t.fileNamespace).map t.namespaceName

/-- The namespace a directive imports; none for an alias. -/
def usingName (i : Nat) : Option String :=
  if (t.children i).any fun c => t.type c = "=" then none
  else (t.firstName i).map t.text

/-- The namespaces imported by the directives right below a node. -/
def usings (i : Nat) : List String :=
  (((t.children i).filter fun c => t.kind c = .usingDirective).filterMap t.usingName).filter (· ≠ "")

/-- Whether a node, as one of those around a place in the file, makes the
names of a namespace known there. -/
def opensNamespace (space : String) (i : Nat) : Bool :=
  match t.kind i with
  | .compilationUnit =>
    (t.usings i).contains space || t.fileNamespace.any fun f => t.namespaceName f = space
  | .namespaceDecl =>
    t.namespaceName i = space || (t.usings ((t.childByField i "body").getD i)).contains space
  | _ => false

/-- A namespace is known at a node if a declaration of it stands around the
node or a directive of a file or namespace around the node imports it. -/
def namespaceReferenced (space : String) (i : Nat) : Bool :=
  (t.scopes i).any (t.opensNamespace space)

end CommandTrace.SyntaxTree
