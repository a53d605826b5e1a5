/-
References to method parameters.

A name that turns out to be a parameter is traced further at the calls of its
method. A reference says which calls those are: the method's name, the types
it may be called on, the position of the argument, and the namespace the
method is declared in.
-/
import CommandTrace.Text.Line

namespace CommandTrace

/-- A parameter whose value is decided at the calls of its method. -/
structure Reference where
  /-- The declaring type, then its bases and interfaces. -/
  typeNames : List String
  methodName : String
  index : Int
  space : Option String
deriving DecidableEq, Repr

/-- Marks the text form of a reference, in rules and in records. -/
def pendingMark : String := "methodCalls:"

/-- Text form, such as `methodCalls:Repo|IRepo.Run:0:Acme.Data`. -/
def Reference.encode (r : Reference) : String :=
  let text := pendingMark ++ joinWith "|" r.typeNames ++ "." ++ r.methodName ++ ":" ++ toString r.index
  match r.space with
  | none | some "" => text
  | some space => text ++ ":" ++ space

end CommandTrace
