/-
Scanning a file: the calls that the rules are for, and the records they give.

The argument a rule points at is a literal, a name to be traced, or something
else. A literal gives a record with its value; a name gives one record with
the literals it was traced to, one for each parameter, and one for each name
that led nowhere.
-/
import CommandTrace.CallSite.Key
import CommandTrace.Logged
import CommandTrace.Record
import CommandTrace.RuleMap

namespace CommandTrace

/-- What to look for besides the rules: the property that an object
initializer may set to a command text, and receivers whose members are never
command texts. -/
structure ScanOptions where
  property : String := "CommandText"
  skippedReceivers : List String := ["CommandType"]
deriving DecidableEq, Repr

namespace SyntaxTree

variable (t : SyntaxTree)

/-! ## Matching -/

/-- Adds a rule found under a key to those that a call matches, unless one for
the same argument and guard is there. The namespace of a rule has to be known
at the call. -/
def addMatch (call : Nat) (matched : List Rule) (candidate : String × Rule) : Logged (List Rule) :=
  let (key, rule) := candidate
  if matched.any rule.sameSlot then pure matched
  else
    match rule.space.filter (· ≠ "") with
    | none => pure (matched ++ [rule])
    | some space =>
      if t.namespaceReferenced space call then pure (matched ++ [rule])
      else do
        Logged.report (.guardSkipped key space t.path)
        return matched

/-- The rules that a call with the given keys matches. -/
def matchingRules (m : RuleMap) (call : Nat) (keys : List String) : Logged (List Rule) :=
  (keys.flatMap fun key => (m.lookup key).map fun rule => (key, rule)).foldlM (t.addMatch call) []

/-- The argument at a rule's index, if there are that many. A negative index
counts from the end. -/
def argumentAt (arguments : List Nat) (index : Int) : Except Fault (Option Nat) :=
  if (arguments.length : Int) ≤ index then .ok none
  else if 0 ≤ index then .ok arguments[index.toNat]?
  else if 0 ≤ index + arguments.length then .ok arguments[(index + arguments.length).toNat]?
  else .error .noSuchElement

/-! ## Records -/

def isSkipped (options : ScanOptions) (expression : Nat) : Bool :=
  match t.childByField expression "expression" with
  | some receiver => options.skippedReceivers.contains (t.text receiver)
  | none => false

/-- The records for a name that stands as an argument, traced from `start`. -/
def nameRecords (name : String) (line : Nat) (start : Nat) : Logged (List Record) := do
  let resolution ← t.trace name start
  if resolution.isEmpty then
    Logged.report (.nameUnresolved name t.path line)
    return [{ file := t.path, line, text := .ofString name, isVariable := true }]
  let values : List Record :=
    if resolution.values.isEmpty then [] else [{ file := t.path, line, text := resolution.text }]
  let pending := resolution.pending.map fun reference =>
    { file := t.path, line, text := .ofString reference.encode, pending := some reference : Record }
  let unresolved ← Logged.gather (fun inner => do
    Logged.report (.aliasUnresolved inner name t.path line)
    return [{ file := t.path, line, text := .ofString inner, isVariable := true : Record }])
    resolution.unresolved
  return values ++ pending ++ unresolved

/-- The records for one argument. With `keepText`, an expression that is
neither a literal nor a name is recorded as its source text. -/
def argumentRecords (options : ScanOptions) (keepText : Bool) (expression line start : Nat) :
    Logged (List Record) :=
  match t.kind expression with
  | .literal => do
    let value ← t.literalValue expression
    return if value = [] then [] else [{ file := t.path, line, text := value }]
  | .memberAccess =>
    if t.isSkipped options expression then pure []
    else t.nameRecords (t.text expression) line start
  | .identifier => t.nameRecords (t.text expression) line start
  | _ =>
    pure <| if keepText then
      [{ file := t.path, line, text := .ofString (t.text expression), isVariable := true }] else []

/-- The records of the arguments that the rules point at; `recordsOf` gives
those of one argument. -/
def ruleRecords (arguments : List Nat) (recordsOf : Nat → Logged (List Record)) (rules : List Rule) :
    Logged (List Record) :=
  Logged.gather (fun rule => do
    match ← argumentAt arguments rule.index with
    | some argument => recordsOf argument
    | none => return []) rules

/-! ## Call sites -/

def scanInvocation (options : ScanOptions) (m : RuleMap) (declarations : List Declaration)
    (invocation : Nat) : Logged (List Record) := do
  let keys ← t.invocationKeys declarations invocation
  let rules ← t.matchingRules m invocation keys
  let arguments := t.argumentExpressions (t.childByField invocation "arguments")
  let line := t.line invocation
  ruleRecords arguments (fun argument => t.argumentRecords options false argument line invocation) rules

/-- The right-hand side of an assignment to the property that carries command
texts. -/
def propertyValue (options : ScanOptions) (assignment : Nat) : Option Nat :=
  if t.isSimpleAssignment assignment then
    match t.childByField assignment "left", t.childByField assignment "right" with
    | some left, some right => if t.text left = options.property then some right else none
    | _, _ => none
  else none

/-- The records of an object initializer. -/
def initializerRecords (options : ScanOptions) (creation : Nat) : Logged (List Record) :=
  match (t.childByField creation "initializer").or (t.childOfKind creation [.initializer]) with
  | none => pure []
  | some initializer =>
    Logged.gather (fun assignment =>
      match t.propertyValue options assignment with
      | some right => t.argumentRecords options true right (t.line assignment) creation
      | none => pure []) (t.namedChildren initializer)

def scanCreation (options : ScanOptions) (m : RuleMap) (creation : Nat) : Logged (List Record) :=
  match t.childByField creation "type" with
  | none => pure []
  | some typeNode => do
    let rules ← t.matchingRules m creation (t.creationKeys typeNode)
    if rules.isEmpty then return []
    let list := t.childByField creation "arguments"
    let start := list.getD creation
    let fromArguments ← ruleRecords (t.argumentExpressions list) (fun argument =>
      t.argumentRecords options true argument (t.line ((t.parent argument).getD argument)) start) rules
    let fromInitializer ← t.initializerRecords options creation
    return fromArguments ++ fromInitializer

/-- The records of a file, in document order. Without rules nothing is looked
at. -/
def scan (options : ScanOptions) (m : RuleMap) : Logged (List Record) :=
  if m.size = 0 then pure []
  else
    let declarations := t.declarations
    Logged.gather (fun i =>
      match t.kind i with
      | .invocation => t.scanInvocation options m declarations i
      | .objectCreation => t.scanCreation options m i
      | _ => pure []) (t.descendants root)

end SyntaxTree

end CommandTrace
