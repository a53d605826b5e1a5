/-
The keys of calls.

A call matches a rule by its key: the text of what is called, or the type of
the receiver and the method's name with a dot between them. The type of a
receiver is looked up among the declarations of the file, whatever their
scope: the nearest one before the call counts, else the first.
-/
import CommandTrace.Tracing

namespace CommandTrace

/-- A variable or parameter with a name, where it is declared, and its type. -/
structure Declaration where
  name : String
  start : Nat
  type : String
deriving DecidableEq, Repr

namespace Declaration

/-- The type of the nearest declaration of a name before a position, else of
its first one. -/
def typeAt (declarations : List Declaration) (name : String) (position : Nat) : String :=
  let candidates := declarations.filter fun d => d.name = withoutThis name
  match (candidates.filter fun d => d.start < position).getLast?.or candidates.head? with
  | some d => d.type
  | none => ""

end Declaration

namespace SyntaxTree

variable (t : SyntaxTree)

/-- The declaration a node makes. One without a name does not count. -/
def declaration? (i : Nat) : Option Declaration :=
  match t.kind i with
  | .declarator =>
    ((t.declaratorName i).filter (· ≠ "")).map fun name => ⟨name, t.start i, t.declaredType i⟩
  | .parameter =>
    ((t.parameterName i).filter (· ≠ "")).map fun name => ⟨name, t.start i, t.parameterType i⟩
  | _ => none

/-- The declarations of a file, in document order. -/
def declarations : List Declaration :=
  (t.descendants root).filterMap t.declaration?

/-- A method's name without type arguments. -/
def simpleName (i : Option Nat) : String :=
  match i with
  | none => ""
  | some i => if t.type i = "generic_name" then t.textOf (t.childOfKind i [.identifier]) else t.text i

/-- Whether the receiver of a call is the object itself. -/
def isSelf (receiver : Nat) : Bool :=
  t.kind receiver = .thisExpr || ["this", "base"].contains (t.text receiver)

/-- The types a call may be on, and the method's name; none if the key can
only be the text of what is called. -/
def callTarget (declarations : List Declaration) (invocation callee : Nat) :
    Except Fault (Option (List String × String)) :=
  if t.kind callee = .memberAccess then
    let method := t.simpleName (t.childByField callee "name")
    match t.childByField callee "expression" with
    | none => .ok none
    | some receiver =>
      if method = "" then .ok none
      else if t.isSelf receiver then do
        let types ← t.enclosingTypeNames invocation
        return some (types, method)
      else .ok (some ([Declaration.typeAt declarations (t.text receiver) (t.start invocation)], method))
  else if t.kind callee = .identifier ∨ t.type callee = "generic_name" then do
    let types ← t.enclosingTypeNames invocation
    return some (types, t.simpleName (some callee))
  else .ok none

/-- The keys a call can match, each once, the text of what is called first. -/
def invocationKeys (declarations : List Declaration) (invocation : Nat) : Except Fault (List String) :=
  match t.childByField invocation "function" with
  | none => .ok []
  | some callee => do
    match ← t.callTarget declarations invocation callee with
    | none => return [t.text callee]
    | some (types, method) =>
      return union [t.text callee] ((types.filter (· ≠ "")).map fun type => type ++ "." ++ method)

/-- The keys an object creation can match: the type's text, and what stands
after its last dot. -/
def creationKeys (typeNode : Nat) : List String :=
  let text := t.text typeNode
  match splitLast? '.' text.toList with
  | some (_, last) => [text, String.ofList last]
  | none => [text]

end SyntaxTree

end CommandTrace
