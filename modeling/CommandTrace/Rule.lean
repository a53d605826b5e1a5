/-
Rules: which argument of which calls carries a command text.
-/
import CommandTrace.Reference

namespace CommandTrace

/-- Where a rule comes from: the user's file, or a parameter that a name was
traced to. -/
inductive Origin where
  | config
  | pending
deriving DecidableEq, Repr

namespace Origin

def name : Origin → String
  | config => "config"
  | pending => "pending"

def ofName? : String → Option Origin
  | "config" => some config
  | "pending" => some pending
  | _ => none

end Origin

/-- The argument at `index` of the calls with key `key` carries a command text,
at places where the namespace `space` is known. -/
structure Rule where
  /-- The key of a call: `Type.Method`, or a bare name. -/
  key : String
  methodName : String
  index : Int
  space : Option String := none
  origin : Origin := .config
deriving DecidableEq, Repr

namespace Rule

def isPending (r : Rule) : Bool :=
  r.origin = .pending

/-- Whether two rules point at the same argument under the same guard. -/
def sameSlot (r r' : Rule) : Bool :=
  r.index = r'.index && r.space = r'.space

/-- The rules for the calls a reference stands for, one for each of its types
that has a name. -/
def ofReference (r : Reference) : List Rule :=
  (r.typeNames.filter (· ≠ "")).map fun typeName =>
    { key := typeName ++ "." ++ r.methodName, methodName := r.methodName, index := r.index,
      space := r.space, origin := .pending }

end Rule

end CommandTrace
