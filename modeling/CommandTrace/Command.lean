/-
A run of the command: from its arguments, the environment and the files to
what it prints, logs and writes.

`Command.run` is a function of these, so a run can be looked at as a value.
Whoever calls it shows the lines, puts the log where it belongs and writes the
file. How long the run took is for the caller to say: the one line about it is
left open.
-/
import CommandTrace.Command.Arguments
import CommandTrace.Command.Log
import CommandTrace.Csv
import CommandTrace.Discovery
import CommandTrace.Rule.File
import CommandTrace.Source

namespace CommandTrace.Command

/-! ## What a run leaves behind -/

inductive OutputLine where
  | text (line : String)
  /-- The last line, which has the elapsed time in it. -/
  | elapsed
deriving DecidableEq, Repr

def OutputLine.render (seconds : String) : OutputLine → String
  | text line => line
  | elapsed => "Analysis complete. Elapsed time = " ++ seconds ++ "s"

/-- A time in seconds, with two places. -/
def seconds (milliseconds : Nat) : String :=
  let hundredths := (milliseconds + 5) / 10
  let places := toString (hundredths % 100)
  toString (hundredths / 100) ++ "." ++ (if places.length = 1 then "0" ++ places else places)

/-- What ends a run that nothing else can end. -/
inductive Failure where
  | settings (error : SettingsError)
  | level (error : LevelError)
  | fault (cause : Fault)
  | pattern (error : GlobError)
  /-- There is no file for the report. -/
  | noOutput
deriving DecidableEq, Repr

def Failure.message : Failure → Text
  | settings error => .ofString error.message
  | level error => error.message
  | fault cause => .ofString cause.message
  | pattern error => .ofString error.message
  | noOutput => .ofString "'list' object has no attribute 'open'"

inductive Ending where
  /-- The run came to its end, with this status. -/
  | done (status : Nat)
  /-- The arguments alone settled it. -/
  | exit (status : Nat)
  | failed (failure : Failure)
deriving DecidableEq, Repr

/-- The status that a finished run leaves. A failure leaves one as well. -/
def Ending.status : Ending → Nat
  | done status => status
  | exit status => status
  | failed _ => 1

/-- A file that was written. -/
structure WrittenFile where
  place : List String
  text : String
deriving DecidableEq, Repr

structure Transcript where
  output : List OutputLine := []
  errors : List String := []
  log : Option Log := none
  events : List Event := []
  written : Option WrittenFile := none

/-- The events that a run logs. -/
def Transcript.logged (t : Transcript) : List Event :=
  match t.log with
  | none => []
  | some log => t.events.filter log.keeps

/-- The lines of the log, where programs are to read it. -/
def Transcript.logLines (t : Transcript) : List (List (String × FieldValue)) :=
  match t.log with
  | none => []
  | some log => if log.isStructured then t.logged.map log.line else []

/-- The log as it is shown. -/
def Transcript.logText (t : Transcript) : List String :=
  match t.log with
  | none => []
  | some log => t.logged.map log.render

/-! ## Running -/

/-- A run that may end at any point, with what it has left behind. -/
abbrev Session := ExceptT Ending (StateM Transcript)

def finish {α : Type} (status : Nat) : Session α :=
  throw (.done status)

def fail {α : Type} (failure : Failure) : Session α :=
  throw (.failed failure)

def print (line : String) : Session Unit :=
  modify fun t => { t with output := t.output ++ [.text line] }

def record (events : List Event) : Session Unit :=
  modify fun t => { t with events := t.events ++ events }

/-- Does a logged computation; its fault ends the run. -/
def perform {α : Type} (x : Logged α) : Session α := do
  record x.events
  match x.outcome with
  | .ok a => return a
  | .error fault => fail (.fault fault)

/-- The text that stands for a file or an encoding, which has to be written
somewhere for that. -/
def encoded (t : Text) : Session String :=
  match t.encode with
  | .ok s => return s
  | .error error => fail (.fault (.unencodable error))

/-- Where the report goes: to the requested file; else to the usual one, which
lies next to the rule file. -/
def outputPath (requested : Option Path) (ruleFile : Path) (usual : Text) : Text :=
  match requested with
  | some path => .ofString path.toString
  | none => ruleFile.parent.joinText usual

/-- The file that the report goes to. -/
def chooseOutput (request : OutputRequest) (ruleFile : Path) (usual : Text) : Session Path :=
  let file (requested : Option Path) : Session Path :=
    Path.ofString <$> encoded (outputPath requested ruleFile usual)
  match request with
  | .usual => file none
  | .file path => file (some path)
  | .nowhere => fail .noOutput

/-- The arguments of a run, with its folder and perhaps a pattern. -/
def readArguments (words : List String) : Session (Arguments × String × Option String) :=
  match Arguments.parse words with
  | .error error => do
    modify fun t =>
      { t with errors := t.errors ++ Arguments.usage ++ ["proctrace: error: " ++ error.message] }
    throw (.exit 2)
  | .ok .help => do
    Arguments.help.forM print
    throw (.exit 0)
  | .ok (.run arguments) =>
    match arguments.paths with
    | [folder] => return (arguments, folder, none)
    | [folder, pattern] => return (arguments, folder, some pattern)
    | _ => do
      Arguments.usage.forM print
      finish 0

def readSettings (environment : List (String × String)) (root : Item) : Session Settings := do
  modify fun t => { t with errors := t.errors ++ Settings.warnings root }
  match Settings.load environment root [] with
  | .ok settings => return settings
  | .error error => fail (.settings error)

/-- Starts the log at the level asked for, or the one of the settings. -/
def openLog (settings : Settings) (requested : Option String) : Session Unit := do
  let level := (requested.map Text.ofString).getD settings.logging.level
  match Log.threshold (level.mapChars Upper.ofChar) with
  | .ok least => modify fun t => { t with log := some { settings, least } }
  | .error error => fail (.level error)

def readRules (root : Item) (path : Path) (encoding : String) : Session RuleMap := do
  let result := root.loadRules path encoding
  match result.outcome with
  | .error (.file error) =>
    record (result.events ++ [.rulesUnreadable path error.message])
    print ("Error: cannot read argument map " ++ path.toString ++ ": " ++ error.message)
    finish 1
  | _ =>
    let (rules, rejected) ← perform result
    if rejected ≠ [] then
      print ("Skipped " ++ toString rejected.length ++ " malformed argument map line(s)")
    return rules

def findFiles (root : Item) (folder : Path) (pattern : String) (ignored : List Text) :
    Session (List Path) :=
  match root.discover folder pattern (ignored.map Text.comparable) with
  | .ok files => return files
  | .error (.pattern error) => fail (.pattern error)
  | .error (.file error) => fail (.fault (.file error))

/-- Writes the report, as far as it can be written, and says how many rows it
has. -/
def writeReport (root : Item) (path : Path) (rows : List Row) : Session Nat :=
  match root.placeToWrite path with
  | .error (.file error) => do
    record [.outputUnwritable path error.message]
    print ("Error: cannot write " ++ path.toString ++ ": " ++ error.message)
    finish 1
  | .error fault => fail (.fault fault)
  | .ok place => do
    let report := Csv.write rows
    modify fun t => { t with written := some { place, text := report.text } }
    match report.error with
    | some error => fail (.fault (.unencodable error))
    | none => return report.count

/-- The lines that sum up a run. -/
def summary (targets corpus rows : Nat) (output : Path) (analysis : Analysis) : List OutputLine :=
  let counted (title : String) (n : Nat) : List OutputLine :=
    if n = 0 then [] else [.text (title ++ toString n)]
  [.text ("Files scanned: " ++ toString targets ++ " (corpus: " ++ toString corpus ++ ")"),
    .text ("Rows written: " ++ toString rows ++ " to " ++ output.toString)] ++
    counted "Unresolved variables: " analysis.unresolvedCount ++
    counted "Files with errors: " analysis.errorCount ++ [.elapsed]

/-- The whole run; it always ends by its status. -/
def session (words : List String) (environment : List (String × String)) (root : Item) :
    Session Unit := do
  let (arguments, folderName, requestedPattern) ← readArguments words
  let settings ← readSettings environment root
  let extraction := settings.extraction
  let folder := Path.ofString folderName
  print ("Code path = " ++ folder.toString)
  if root.isTooLong folder then
    fail (.fault (.file (.nameTooLong folder)))
  if !root.isFolderAt folder then
    print ("Directory " ++ folder.toString ++ " does not exist. Please retry.")
    finish 0
  openLog settings arguments.level
  let encoding ← encoded extraction.encoding
  let ruleFile ← match arguments.ruleFile with
    | some path => pure path
    | none => Path.ofString <$> encoded extraction.ruleFile
  let rules ← readRules root ruleFile encoding
  let pattern := requestedPattern.getD extraction.targetPattern.comparable
  let targets ← findFiles root folder pattern extraction.ignoredFolders
  let corpus ← findFiles root folder extraction.corpusPattern.comparable
    extraction.ignoredFolders
  record [.filesDiscovered folder targets.length corpus.length]
  let analysis ← perform
    (Analysis.run (root.loadTree encoding) extraction.options rules targets corpus)
  let rows := Report.rows extraction.tokens analysis.records
  record [Report.event extraction.tokens analysis.records]
  let output ← chooseOutput arguments.output ruleFile extraction.outputFile
  let written ← writeReport root output rows
  modify fun t =>
    { t with output := t.output ++ summary targets.length corpus.length written output analysis }

/-- What a run leaves behind and how it ends. -/
def run (words : List String) (environment : List (String × String)) (root : Item) :
    Transcript × Ending :=
  match (session words environment root).run.run {} with
  | (.ok (), transcript) => (transcript, .done 0)
  | (.error ending, transcript) => (transcript, ending)

end CommandTrace.Command
