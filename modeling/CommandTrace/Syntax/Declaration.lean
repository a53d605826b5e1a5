/-
Declarations in a syntax tree: declarators and their initial values,
parameters, methods, types with their bases, arguments and assignments.

Every question may be asked of every node; one it does not fit has the empty
answer.
-/
import CommandTrace.Fault
import CommandTrace.Syntax.Tree

namespace CommandTrace.SyntaxTree

variable (t : SyntaxTree)

/-- The text of a node that may not be there. -/
def textOf (i : Option Nat) : String :=
  match i with
  | some i => t.text i
  | none => ""

/-! ## Variables -/

def declaratorName (i : Nat) : Option String :=
  ((t.childByField i "name").or (t.childOfKind i [.identifier])).map t.text

/-- The initial value among the children of a declarator: the first named
child after `=`, or the content of a clause. -/
def initialValue (afterEquals : Bool) : List Nat → Option Nat
  | [] => none
  | c :: rest =>
    if t.type c = "equals_value_clause" then (t.namedChildren c).head?
    else if t.type c = "=" then initialValue true rest
    else if afterEquals && t.isNamed c then some c
    else initialValue afterEquals rest

def declaratorValue (i : Nat) : Option Nat :=
  t.initialValue false (t.children i)

/-- The type created by the initial value of a declarator. -/
def createdType (i : Nat) : Option Nat :=
  match t.declaratorValue i with
  | none => none
  | some v => if t.kind v = .objectCreation then t.childByField v "type" else none

/-- The declared type of a declarator. One that is left open is the type
created by the initial value, where that creates an object. -/
def declaredType (i : Nat) : String :=
  match t.parent i with
  | none => ""
  | some declaration =>
    if t.kind declaration ≠ .variableDecl then ""
    else
      match t.childByField declaration "type" with
      | none => ""
      | some typeNode =>
        if t.kind typeNode = .implicitType ∨ t.text typeNode = "var" then
          t.text ((t.createdType i).getD typeNode)
        else t.text typeNode

/-- The declarators of a field or of a local declaration. -/
def declarators (i : Nat) : List Nat :=
  let declaration := if t.kind i = .fieldDecl then t.childOfKind i [.variableDecl] else some i
  match declaration with
  | none => []
  | some d => (t.children d).filter fun c => t.kind c = .declarator

/-! ## Methods and their parameters -/

def parameters (i : Nat) : List Nat :=
  let list := (t.childByField i "parameters").or
    ((t.children i).find? fun c => t.type c = "parameter_list")
  match list with
  | none => []
  | some l => (t.children l).filter fun c => t.kind c = .parameter

def parameterName (i : Nat) : Option String :=
  ((t.childByField i "name").or
    ((t.children i).filter fun c => t.kind c = .identifier).getLast?).map t.text

def parameterType (i : Nat) : String :=
  t.textOf (t.childByField i "type")

def methodName (i : Nat) : String :=
  t.textOf (t.childByField i "name")

/-! ## Types -/

def typeName (i : Nat) : String :=
  t.textOf (t.childByField i "name")

/-- The name of one element of a base list. -/
def baseName (i : Nat) : Except Fault String :=
  if t.type i = "primary_constructor_base_type" then
    match (t.childByField i "type").or (t.namedChildren i).head? with
    | some inner => .ok (t.text inner)
    | none => .error .noSuchElement
  else .ok (t.text i)

/-- The declared bases of a type, classes and interfaces. -/
def baseNames (i : Nat) : Except Fault (List String) :=
  match t.childOfKind i [.baseList] with
  | none => .ok []
  | some list => ((t.namedChildren list).filter fun c => t.type c ≠ "comment").mapM t.baseName

/-- The name of the nearest type around a node, then its bases. -/
def enclosingTypeNames (i : Nat) : Except Fault (List String) :=
  match t.enclosing i [.typeDecl] with
  | none => .ok []
  | some declaration => do
    let bases ← t.baseNames declaration
    return t.typeName declaration :: bases

/-- The names of the types among the nodes up to the nearest namespace. -/
def typesUpToNamespace : List Nat → List String
  | [] => []
  | a :: rest =>
    if t.kind a = .namespaceDecl then []
    else if t.kind a = .typeDecl then t.typeName a :: typesUpToNamespace rest
    else typesUpToNamespace rest

/-- A variable's name after the names of the types around it, outermost
first. Namespaces do not count. -/
def qualifiedName (name : String) (i : Nat) : String :=
  joinWith "." (name :: t.typesUpToNamespace (t.ancestors i)).reverse

/-! ## Arguments and assignments -/

/-- The expression of one argument: its last named child that is no comment. -/
def argumentExpression (i : Nat) : Option Nat :=
  ((t.namedChildren i).filter fun c => t.type c ≠ "comment").getLast?

/-- The expressions of an argument list. -/
def argumentExpressions (list : Option Nat) : List Nat :=
  match list with
  | none => []
  | some l => ((t.children l).filter fun c => t.kind c = .argument).filterMap t.argumentExpression

def assignmentOperator (i : Nat) : String :=
  let operator := (t.childByField i "operator").or ((t.children i).find? fun c =>
    t.type c = "assignment_operator" || (!t.isNamed c && ['='].isSuffixOf (t.type c).toList))
  match operator with
  | some o => t.text o
  | none => "="

def isSimpleAssignment (i : Nat) : Bool :=
  t.kind i = .assignment && t.assignmentOperator i = "="

end CommandTrace.SyntaxTree
