/-
Rules by the key of the calls they are for.

Keys stand in the order in which they were first added, and so do the rules of
a key. A rule is held once.
-/
import CommandTrace.Distinct
import CommandTrace.Rule

namespace CommandTrace

structure RuleMap where
  buckets : List (String × List Rule) := []
deriving DecidableEq, Repr

namespace RuleMap

def empty : RuleMap := {}

/-- Puts a rule into the bucket of its key, or into a new one at the end. -/
def addTo (r : Rule) : List (String × List Rule) → List (String × List Rule)
  | [] => [(r.key, [r])]
  | (key, rules) :: rest =>
    if key = r.key then (key, addNew rules r) :: rest else (key, rules) :: addTo r rest

def add (m : RuleMap) (r : Rule) : RuleMap :=
  ⟨addTo r m.buckets⟩

def addAll (m : RuleMap) (rs : List Rule) : RuleMap :=
  rs.foldl add m

def ofList (rs : List Rule) : RuleMap :=
  empty.addAll rs

def keys (m : RuleMap) : List String :=
  m.buckets.map Prod.fst

/-- All rules, those of one key together. -/
def toList (m : RuleMap) : List Rule :=
  m.buckets.flatMap Prod.snd

def size (m : RuleMap) : Nat :=
  m.toList.length

/-- The rules of a key. -/
def lookup (m : RuleMap) (key : String) : List Rule :=
  match m.buckets.find? fun bucket => bucket.1 = key with
  | some bucket => bucket.2
  | none => []

def contains (m : RuleMap) (key : String) : Bool :=
  m.keys.contains key

def merge (m m' : RuleMap) : RuleMap :=
  ofList (m.toList ++ m'.toList)

def hasPending (m : RuleMap) : Bool :=
  m.toList.any Rule.isPending

/-- The rules for the calls of the referenced methods. -/
def ofReferences (refs : List Reference) : RuleMap :=
  ofList (refs.flatMap Rule.ofReference)

end RuleMap

end CommandTrace
