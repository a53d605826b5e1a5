/-
The analysis of a set of files.

The target files are scanned with the user's rules. Names that turned out to
be parameters give new rules, for the calls of their methods, and the whole
corpus is scanned with those; the parameters found there give the rules of the
next round, for as many rounds as are allowed. Last, the names that could not
be traced are looked up among the constants of the corpus.
-/
import CommandTrace.Analysis.Pass

namespace CommandTrace

/-- What an analysis has found. -/
structure Analysis where
  records : List Record := []
  /-- The rules of all rounds. -/
  pendingRules : RuleMap := {}
  passes : List PassStats := []
deriving DecidableEq, Repr

namespace Analysis

/-- The records that can be reported. -/
def outputRecords (a : Analysis) : List Record :=
  a.records.filter (!·.isPending)

def unresolvedCount (a : Analysis) : Nat :=
  a.outputRecords.countP Record.isVariable

def errorCount (a : Analysis) : Nat :=
  a.records.countP Record.isError

/-- The references that records carry, each once, without those in `seen`. -/
def newReferences (seen : List Reference) (records : List Record) : List Reference :=
  (distinct (records.filterMap Record.pending)).filter fun r => r ∉ seen

/-- The rounds of propagation, of which `remaining` are left, `round` is the
next, the references in `seen` have had theirs and `frontier` holds the
records of the last one. -/
def propagate (scanCorpus : RuleMap → Logged (List Record × PassStats)) (files : Nat) :
    (remaining round : Nat) → (seen : List Reference) → (frontier : List Record) → Analysis →
      Logged Analysis
  | 0, _, _, _, a => pure a
  | remaining + 1, round, seen, frontier, a =>
    match newReferences seen frontier with
    | [] => do
      if round = 1 then Logged.report .noReferencedMethods
      return a
    | references => do
      let rules := RuleMap.ofReferences references
      Logged.report (.roundStarted round files references)
      let (records, stats) ← scanCorpus rules
      propagate scanCorpus files remaining (round + 1) (seen ++ references) records
        { records := a.records ++ records
          pendingRules := a.pendingRules.merge rules
          passes := a.passes ++ [stats] }

/-- How an analysis is to be made. -/
structure Options where
  scan : ScanOptions := {}
  /-- The most rounds of propagation; at least one is made. -/
  rounds : Int := 1
deriving DecidableEq, Repr

def Options.roundCount (options : Options) : Nat :=
  (max 1 options.rounds).toNat

/-- The scan of the targets and the rounds of propagation. -/
def scanPasses (load : Loader) (options : Options) (rules : RuleMap) (targets corpus : List Path) :
    Logged Analysis := do
  Logged.report (.passStarted 1 targets.length)
  let (records, stats) ← Pass.scan load options.scan 1 targets rules
  propagate (Pass.scan load options.scan 2 corpus) corpus.length options.roundCount 1 [] records
    { records, passes := [stats] }

/-- The whole analysis. -/
def run (load : Loader) (options : Options) (rules : RuleMap) (targets corpus : List Path) :
    Logged Analysis := do
  let scanned ← scanPasses load options rules targets corpus
  Logged.report (.passStarted 3 corpus.length)
  let (records, stats) ← Pass.declarations load 3 scanned.records corpus
  let a := { scanned with records, passes := scanned.passes ++ [stats] }
  Logged.report (.analysisComplete a.outputRecords.length a.unresolvedCount a.errorCount)
  return a

end Analysis

end CommandTrace
