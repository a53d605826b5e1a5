/-
Reading rules from lines.

A rule is written `Type.Method,index` or `Type.Method,index,Namespace`. Several
types may stand before the dot, with `|` between them, and give one rule each.
Blank lines and lines that start with `//` are ignored; a line that is no rule
is rejected and costs only itself.
-/
import CommandTrace.Event
import CommandTrace.RuleMap
import CommandTrace.Text.Blank
import CommandTrace.Text.Line
import CommandTrace.Text.Numeral
import CommandTrace.Text.Quoted

namespace CommandTrace

/-- Why a line is no rule. -/
inductive RuleError where
  | fieldCount (found : Nat)
  | noInteger (field : String)
  | negativeIndex
  | noMethodName
  | noTypeName
deriving DecidableEq, Repr

def RuleError.message : RuleError → String
  | fieldCount found => "expected 2 or 3 fields, found " ++ toString found
  | noInteger field => "argument index " ++ quoted field ++ " is not an integer"
  | negativeIndex => "argument index must not be negative"
  | noMethodName => "missing method name"
  | noTypeName => "empty type qualifier"

/-- A line that is no rule, with its number. -/
structure RejectedLine where
  number : Int
  line : String
  error : RuleError
deriving DecidableEq, Repr

def RejectedLine.message (r : RejectedLine) : String :=
  "line " ++ toString r.number ++ ": " ++ r.error.message ++ ": " ++ quoted (strip r.line)

def RejectedLine.event (r : RejectedLine) : Event :=
  .ruleRejected r.number r.error.message r.line

namespace Rule

/-- What stands before and after the last dot of a call's name. -/
def splitName (name : List Char) : List Char × List Char :=
  (splitLast? '.' name).getD ([], name)

/-- One rule for each of the types, or one for the bare name where there is
nothing before the dot. -/
def forTypes (types : List Char) (methodName : String) (index : Int) (space : Option String) (origin : Origin) :
    Except RuleError (List Rule) :=
  if types = [] then .ok [⟨methodName, methodName, index, space, origin⟩]
  else
    match ((fields '|' types).map trim).filter (· ≠ []) with
    | [] => .error .noTypeName
    | names => .ok (names.map fun name =>
        ⟨String.ofList name ++ "." ++ methodName, methodName, index, space, origin⟩)

/-- The rules for a method with what stands before the dot: the types, and before
them perhaps the mark of a pending reference. -/
def forQualifier (qualifier : List Char) (methodName : String) (index : Int) (space : Option String) :
    Except RuleError (List Rule) :=
  if pendingMark.toList.isPrefixOf qualifier then
    forTypes (qualifier.drop pendingMark.length) methodName index space .pending
  else forTypes qualifier methodName index space .config

/-- The rules of a line with the given call, index and namespace. -/
def ofFields (call index : List Char) (space : Option String) : Except RuleError (List Rule) :=
  match Numeral.readInt? index with
  | none => .error (.noInteger (String.ofList index))
  | some n =>
    if n < 0 then .error .negativeIndex
    else
      let (qualifier, method) := splitName call
      if method = [] then .error .noMethodName
      else forQualifier qualifier (String.ofList method) n space

/-- The rules a line stands for. -/
def parse (line : String) : Except RuleError (List Rule) :=
  match (fields ',' (trim line.toList)).map trim with
  | [call, index] => ofFields call index none
  | [call, index, space] => ofFields call index (if space = [] then none else some (String.ofList space))
  | parts => .error (.fieldCount parts.length)

end Rule

/-- What a line of a rule file comes to. -/
inductive RuleLine where
  | ignored
  | accepted (rules : List Rule)
  | rejected (line : RejectedLine)
deriving DecidableEq, Repr

namespace RuleLine

def read (number : Int) (line : String) : RuleLine :=
  let cs := trim line.toList
  if cs = [] ∨ ['/', '/'].isPrefixOf cs then .ignored
  else
    match Rule.parse (String.ofList cs) with
    | .ok rules => .accepted rules
    | .error error => .rejected ⟨number, String.ofList cs, error⟩

def rules : RuleLine → List Rule
  | accepted rules => rules
  | _ => []

def rejection? : RuleLine → Option RejectedLine
  | rejected line => some line
  | _ => none

/-- The lines of a file, numbered from `number` on. -/
def readFrom (number : Int) : List String → List RuleLine
  | [] => []
  | line :: rest => read number line :: readFrom (number + 1) rest

def readAll (lines : List String) : List RuleLine :=
  readFrom 1 lines

end RuleLine

namespace RuleMap

def ofLines (lines : List String) : RuleMap :=
  ofList ((RuleLine.readAll lines).flatMap RuleLine.rules)

end RuleMap

/-- The lines that are no rules. -/
def rejectedLines (lines : List String) : List RejectedLine :=
  (RuleLine.readAll lines).filterMap RuleLine.rejection?

/-- What is reported while rules are read from lines, after `earlier` lines
have been rejected before. -/
def ruleEvents (earlier : Nat) (lines : List String) : List Event :=
  let rejected := rejectedLines lines
  rejected.map RejectedLine.event ++
    [.rulesBuilt (RuleMap.ofLines lines).size (earlier + rejected.length)]

end CommandTrace
