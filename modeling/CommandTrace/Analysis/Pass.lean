/-
Passes over files.

A scan pass looks for calls in each file; a file that cannot be read or
analysed gives one record that says why, and nothing else. A look-up pass
takes each record that could not be traced and looks for its name among the
constants of one file after another, until none is left.

How a file comes to be a tree is the caller's: `load` is whatever reads and
parses it.
-/
import CommandTrace.Analysis.Constants
import CommandTrace.CallSite.Scan

namespace CommandTrace

/-- The counts of one pass. -/
structure PassStats where
  number : Int
  scanned : Nat := 0
  failed : Nat := 0
  found : Nat := 0
deriving DecidableEq, Repr

/-- Reads and parses a file. -/
abbrev Loader := Path → Logged SyntaxTree

namespace Pass

/-! ## Scanning -/

/-- What a scan pass gets from one file. -/
structure FileScan where
  records : List Record
  failed : Bool
deriving DecidableEq, Repr

/-- The record of a file that could not be analysed. -/
def errorRecord (path : Path) (fault : Fault) : Record :=
  { file := path, line := 0, text := [], error := path.toString ++ ": " ++ fault.message }

def failureEvent (path : Path) (fault : Fault) : Event :=
  match fault with
  | .file error => .fileUnreadable path error.message
  | _ => .scanFailed path fault.message

def scanFile (load : Loader) (options : ScanOptions) (m : RuleMap) (number : Nat) (path : Path) :
    Logged FileScan := do
  Logged.report (.scanningFile number path)
  match ← Logged.attempt (do (← load path).scan options m) with
  | .ok records => return ⟨records, false⟩
  | .error fault =>
    Logged.report (failureEvent path fault)
    return ⟨[errorRecord path fault], true⟩

/-- The records and counts of a pass from what it got from each file. -/
def summarize (number : Nat) (scans : List FileScan) : List Record × PassStats :=
  let records := scans.flatMap FileScan.records
  (records, { number, scanned := scans.countP (!·.failed), failed := scans.countP (·.failed),
              found := records.length })

def scan (load : Loader) (options : ScanOptions) (number : Nat) (files : List Path) (m : RuleMap) :
    Logged (List Record × PassStats) := do
  let scans ← Logged.gather (fun path => return [← scanFile load options m number path]) files
  return summarize number scans

/-! ## Looking names up -/

/-- The value a table gives to an open record. -/
def lookup? (table : List (String × Text)) (r : Record) : Option Text :=
  if r.isOpen then
    (table.find? fun entry => decide (Text.ofString entry.1 = r.text)).map Prod.snd
  else none

/-- The records with those filled in that the table has a value for. -/
def fillIn (table : List (String × Text)) (records : List Record) : List Record :=
  records.map fun r =>
    match lookup? table r with
    | some value => r.resolved value
    | none => r

/-- Looks the open records up in one file after another. -/
def lookupFrom (load : Loader) (records : List Record) (stats : PassStats) :
    List Path → Logged (List Record × PassStats)
  | [] => pure (records, stats)
  | path :: rest =>
    if records.any Record.isOpen then do
      Logged.report (.scanningFile stats.number path)
      match ← Logged.attempt (load path) with
      | .error (.file error) =>
        Logged.report (.fileUnreadable path error.message)
        lookupFrom load records { stats with failed := stats.failed + 1 } rest
      | .error fault => Logged.ofExcept (.error fault)
      | .ok t =>
        let table ← t.constants
        lookupFrom load (fillIn table records)
          { stats with
            scanned := stats.scanned + 1
            found := stats.found + records.countP fun r => (lookup? table r).isSome } rest
    else pure (records, stats)

def declarations (load : Loader) (number : Int) (records : List Record) (files : List Path) :
    Logged (List Record × PassStats) :=
  if records.any Record.isOpen then lookupFrom load records { number } files
  else do
    Logged.report .noVariables
    return (records, { number })

end Pass

end CommandTrace
