/-
What a run reports while it works: one constructor for each kind of event.
Level, name and fields of an event, as they stand in the log, are functions of
it.
-/
import CommandTrace.Path
import CommandTrace.Reference

namespace CommandTrace

inductive Level where
  | debug
  | info
  | warning
  | error
  /-- An error reported together with the fault that caused it. -/
  | failure
deriving DecidableEq, Repr

inductive Event where
  | parsedFile (path : Path) (nodes : Nat)
  | syntaxErrors (path : Path)
  | bytesReplaced (path : Path) (encoding : String) (position : Nat)
  | loadingRules (path : Path)
  | ruleRejected (line : Int) (reason text : String)
  | rulesBuilt (entries rejected : Nat)
  | parameterFound (name : String) (reference : Reference)
  | guardSkipped (key space : String) (path : Path)
  | nameUnresolved (name : String) (path : Path) (line : Int)
  | aliasUnresolved (name outer : String) (path : Path) (line : Int)
  | passStarted (number files : Nat)
  | roundStarted (round files : Nat) (references : List Reference)
  | scanningFile (number : Int) (path : Path)
  | fileUnreadable (path : Path) (reason : String)
  | scanFailed (path : Path) (reason : String)
  | noReferencedMethods
  | noVariables
  | analysisComplete (records unresolved errors : Nat)
  | recordsAggregated (rows dropped : Nat)
  | rulesUnreadable (path : Path) (reason : String)
  | filesDiscovered (root : Path) (targets corpus : Nat)
  | outputUnwritable (path : Path) (reason : String)
deriving DecidableEq, Repr

/-- The value of a field of an event. -/
inductive FieldValue where
  | text (s : String)
  | number (n : Int)
  | texts (ss : List String)
deriving DecidableEq, Repr

namespace Event

def level : Event → Level
  | parsedFile .. | rulesBuilt .. | parameterFound .. | guardSkipped .. | recordsAggregated .. => .debug
  | syntaxErrors .. | bytesReplaced .. | ruleRejected .. | fileUnreadable .. => .warning
  | rulesUnreadable .. | outputUnwritable .. => .error
  | scanFailed .. => .failure
  | loadingRules .. | nameUnresolved .. | aliasUnresolved .. | passStarted .. | roundStarted ..
  | scanningFile .. | noReferencedMethods | noVariables | analysisComplete ..
  | filesDiscovered .. => .info

def name : Event → String
  | parsedFile .. => "parsed_file"
  | syntaxErrors .. => "syntax_errors_in_file"
  | bytesReplaced .. => "undecodable_bytes_replaced"
  | loadingRules .. => "loading_argument_map"
  | ruleRejected .. => "config_line_rejected"
  | rulesBuilt .. => "argument_map_built"
  | parameterFound .. => "parameter_reference"
  | guardSkipped .. => "namespace_guard_skipped"
  | nameUnresolved .. | aliasUnresolved .. => "identifier_unresolved"
  | passStarted .. | roundStarted .. => "pass_started"
  | scanningFile .. => "scanning_file"
  | fileUnreadable .. => "file_read_failed"
  | scanFailed .. => "scan_failed"
  | noReferencedMethods => "no_referenced_methods"
  | noVariables => "no_variables_to_lookup"
  | analysisComplete .. => "analysis_complete"
  | recordsAggregated .. => "records_aggregated"
  | rulesUnreadable .. => "argument_map_unreadable"
  | filesDiscovered .. => "corpus_discovered"
  | outputUnwritable .. => "output_unwritable"

def fields : Event → List (String × FieldValue)
  | parsedFile path nodes => [("path", .text path.toString), ("nodes", .number nodes)]
  | syntaxErrors path => [("path", .text path.toString)]
  | bytesReplaced path encoding position =>
    [("path", .text path.toString), ("encoding", .text encoding), ("position", .number position)]
  | loadingRules path => [("path", .text path.toString)]
  | ruleRejected line reason text =>
    [("line_number", .number line), ("reason", .text reason), ("line", .text text)]
  | rulesBuilt entries rejected => [("entries", .number entries), ("rejected", .number rejected)]
  | parameterFound name reference => [("name", .text name), ("reference", .text reference.encode)]
  | guardSkipped key space path =>
    [("key", .text key), ("namespace", .text space), ("path", .text path.toString)]
  | nameUnresolved name path line =>
    [("name", .text name), ("path", .text path.toString), ("line", .number line)]
  | aliasUnresolved name outer path line =>
    [("name", .text name), ("alias", .text outer), ("path", .text path.toString), ("line", .number line)]
  | passStarted number files => [("number", .number number), ("files", .number files)]
  | roundStarted round files references =>
    [("number", .number 2), ("round", .number round), ("files", .number files),
      ("referenced_methods", .texts (references.map Reference.encode))]
  | scanningFile number path => [("number", .number number), ("path", .text path.toString)]
  | fileUnreadable path reason | scanFailed path reason | rulesUnreadable path reason
  | outputUnwritable path reason => [("path", .text path.toString), ("error", .text reason)]
  | noReferencedMethods | noVariables => []
  | analysisComplete records unresolved errors =>
    [("records", .number records), ("unresolved", .number unresolved), ("errors", .number errors)]
  | recordsAggregated rows dropped => [("rows", .number rows), ("pending_dropped", .number dropped)]
  | filesDiscovered root targets corpus =>
    [("root", .text root.toString), ("target_files", .number targets), ("corpus_files", .number corpus)]

end Event

end CommandTrace
