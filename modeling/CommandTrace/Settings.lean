/-
The settings of a run.

There is a section for the extraction, one for the log, and one for the
application, which has the others in it. Only the application's fields are
also looked for in a file of variables, unless a section is given another.
-/
import CommandTrace.Analysis
import CommandTrace.Report
import CommandTrace.Settings.Field
import CommandTrace.Settings.Section

namespace CommandTrace

def Checked.toExcept {α : Type} : Checked α → Except SettingsError α
  | valid a => .ok a
  | invalid problems => .error (.invalid problems)

/-! ## Sections -/

namespace Settings

/-- What is extracted, from where and to where. -/
structure Extraction where
  ruleFile : Text := .ofString "argMap.txt"
  outputFile : Text := .ofString "storedprocs.csv"
  /-- The pattern for the files that are scanned with the user's rules. -/
  targetPattern : Text := .ofString "*.cs"
  /-- The pattern for the files of the later passes. -/
  corpusPattern : Text := .ofString "*.cs"
  encoding : Text := .ofString "utf-8"
  rounds : Int := 1
  property : Text := .ofString "CommandText"
  ignoredFolders : List Text := ["obj", "bin", ".git", ".vs"].map Text.ofString
  skippedReceivers : List Text := ["CommandType"].map Text.ofString
  tokens : List Text := Report.defaultTokens
deriving DecidableEq, Repr

structure Logging where
  level : Text := .ofString "INFO"
  format : Text := .ofString "console"
deriving DecidableEq, Repr

namespace Extraction

def fields : Section where
  usual := { lead := "EXTRACTOR_" }
  fields :=
    [("arg_map_file", .plain), ("output_file", .plain), ("default_glob", .plain),
      ("corpus_glob", .plain), ("source_encoding", .plain), ("max_propagation_rounds", .plain),
      ("initializer_property", .plain), ("ignore_dirs", .structured),
      ("skip_receivers", .structured), ("strip_tokens", .structured)]

def check (given : Json.Fields) : Checked Extraction :=
  let usual : Extraction := {}
  Field.onlyNamed fields.names given <| Extraction.mk
    <$> Field.read given "arg_map_file" usual.ruleFile Field.path
    <*> Field.read given "output_file" usual.outputFile Field.path
    <*> Field.read given "default_glob" usual.targetPattern Field.text
    <*> Field.read given "corpus_glob" usual.corpusPattern Field.text
    <*> Field.read given "source_encoding" usual.encoding Field.text
    <*> Field.read given "max_propagation_rounds" usual.rounds (Field.integerIn 1 10)
    <*> Field.read given "initializer_property" usual.property Field.text
    <*> Field.readTexts given "ignore_dirs" usual.ignoredFolders
    <*> Field.readTexts given "skip_receivers" usual.skippedReceivers
    <*> Field.readTexts given "strip_tokens" usual.tokens

def load (environment : List (String × String)) (root : Item) (given : Json.Fields) :
    Except SettingsError Extraction := do
  (check (← fields.gather environment root given)).toExcept

/-- How the analysis is to be made. -/
def options (e : Extraction) : Analysis.Options where
  scan := { property := e.property.comparable, skippedReceivers := e.skippedReceivers.map Text.comparable }
  rounds := e.rounds

end Extraction

namespace Logging

def fields : Section where
  usual := { lead := "LOG_" }
  fields := [("level", .plain), ("format", .plain)]

def check (given : Json.Fields) : Checked Logging :=
  let usual : Logging := {}
  Field.onlyNamed fields.names given <| Logging.mk
    <$> Field.read given "level" usual.level Field.text
    <*> Field.read given "format" usual.format Field.text

def load (environment : List (String × String)) (root : Item) (given : Json.Fields) :
    Except SettingsError Logging := do
  (check (← fields.gather environment root given)).toExcept

end Logging

end Settings

/-! ## The whole -/

structure Settings where
  name : Text := .ofString "ProcTrace"
  version : Text := .ofString "0.1.0"
  environment : Text := .ofString "development"
  extraction : Settings.Extraction := {}
  logging : Settings.Logging := {}
deriving DecidableEq, Repr

namespace Settings

def fields : Section where
  usual := { files := [.ofString ".env"] }
  fields :=
    [("app_name", .plain), ("app_version", .plain), ("environment", .plain),
      ("extractor", Extraction.fields.shape), ("logging", Logging.fields.shape)]

/-- The section that a value gives. Without a value it is read from variables
alone, and what fails then is no problem of this value but stops everything. -/
def part {α : Type} (name typeName : String) (value : Option Json)
    (load : Json.Fields → Except SettingsError α) : Except SettingsError (Checked α) :=
  match value with
  | none => (load []).map .valid
  | some (.object given) =>
    match load given with
    | .ok a => .ok (.valid a)
    | .error (.invalid problems) => .ok (.invalid (problems.map (·.within name)))
    | .error error =>
      if error.isProblem then .ok (.invalid [⟨[name], .unreadSection error.message⟩])
      else .error error
  | some _ => .ok (.invalid [⟨[name], .notSection typeName⟩])

/-- What is said about the lines of the file of variables that are none. -/
def warnings (root : Item) : List String :=
  match fields.usual.fileContents root with
  | .ok contents =>
    (contents.flatMap Dotenv.Contents.faulty).map fun line =>
      "python-dotenv could not parse statement starting at line " ++ toString line
  | .error _ => []

def load (environment : List (String × String)) (root : Item) (given : Json.Fields) :
    Except SettingsError Settings := do
  let given ← fields.gather environment root given
  let extraction ← part "extractor" "ExtractorSettings" (Json.field? given (.ofString "extractor"))
    (Extraction.load environment root)
  let logging ← part "logging" "LoggingSettings" (Json.field? given (.ofString "logging"))
    (Logging.load environment root)
  let usual : Settings := {}
  (Settings.mk
    <$> Field.read given "app_name" usual.name Field.text
    <*> Field.read given "app_version" usual.version Field.text
    <*> Field.read given "environment" usual.environment Field.text
    <*> extraction
    <*> logging).toExcept

end Settings

end CommandTrace
