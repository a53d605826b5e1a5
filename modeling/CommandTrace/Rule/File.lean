/-
Rule files: reading one, with the lines that are no rules.
-/
import CommandTrace.Logged
import CommandTrace.Rule.Parser
import CommandTrace.TextFile

namespace CommandTrace.Item

/-- The lines of a rule file. -/
def ruleLines (root : Item) (path : Path) (encoding : String) : Except Fault (List String) := do
  return (Line.split (← root.readText path encoding)).map String.ofList

/-- The rules of a file and the lines that are none. -/
def loadRules (root : Item) (path : Path) (encoding : String) : Logged (RuleMap × List RejectedLine) := do
  let lines ← root.ruleLines path encoding
  Logged.report (.loadingRules path)
  (⟨ruleEvents 0 lines, .ok (RuleMap.ofLines lines, rejectedLines lines)⟩ : Logged _)

end CommandTrace.Item
