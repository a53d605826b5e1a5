/-
The log of a run: which events it keeps, and how a line of it looks.

A line is a JSON object if programs are to read the log, and otherwise the
event with its fields one after another.
-/
import CommandTrace.Settings
import CommandTrace.Text.Quoted

namespace CommandTrace

/-- Why a name gives no level. Two names stand for something else that has to
do with logs. -/
inductive LevelError where
  | unknown (name : Text)
  /-- The name of the format of lines. -/
  | lineFormat
  /-- The name of the table of styles of formats. -/
  | formatStyles
deriving DecidableEq, Repr

def LevelError.message : LevelError → Text
  | unknown name => .ofString "module 'logging' has no attribute '" ++ name ++ .ofString "'"
  | lineFormat => .ofString "'%(levelname)s:%(name)s:%(message)s'"
  | formatStyles => .ofString "unhashable type: 'dict'"

structure Log where
  settings : Settings
  /-- Events of a lower weight are left out. -/
  least : Nat
deriving DecidableEq, Repr

namespace Log

/-! ## Levels -/

def weight : Level → Nat
  | .debug => 10
  | .info => 20
  | .warning => 30
  | .error => 40
  | .failure => 40

/-- The least weight that the level of a name lets through. -/
def threshold (name : Text) : Except LevelError Nat :=
  match name.toString? with
  | some "NOTSET" => .ok 0
  | some "DEBUG" => .ok 10
  | some "INFO" => .ok 20
  | some "WARNING" => .ok 30
  | some "WARN" => .ok 30
  | some "ERROR" => .ok 40
  | some "CRITICAL" => .ok 50
  | some "FATAL" => .ok 50
  | some "BASIC_FORMAT" => .error .lineFormat
  | some "_STYLES" => .error .formatStyles
  | _ => .error (.unknown name)

def levelName : Level → String
  | .debug => "debug"
  | .info => "info"
  | .warning => "warning"
  | .error => "error"
  | .failure => "error"

def keeps (log : Log) (event : Event) : Bool :=
  log.least ≤ weight event.level

/-! ## Lines -/

/-- Whether programs are to read the log. -/
def isStructured (log : Log) : Bool :=
  log.settings.logging.format = .ofString "json"

/-- The fields of a line. -/
def line (log : Log) (event : Event) : List (String × FieldValue) :=
  [("app", .text log.settings.name.shown), ("version", .text log.settings.version.shown),
    ("environment", .text log.settings.environment.shown), ("event", .text event.name),
    ("level", .text (levelName event.level))] ++ event.fields

/-- A character inside a JSON string, in printable ASCII. -/
def escape (c : Char) : String :=
  let unit (n : Nat) : String := "\\u" ++ hexadecimal 4 n
  let n := c.toNat
  if c = '"' then "\\\""
  else if c = '\\' then "\\\\"
  else if c = '\n' then "\\n"
  else if c = '\r' then "\\r"
  else if c = '\t' then "\\t"
  else if n = 0x08 then "\\b"
  else if n = 0x0C then "\\f"
  else if 0x20 ≤ n ∧ n ≤ 0x7E then String.singleton c
  else if n < 0x10000 then unit n
  else unit (0xD800 + (n - 0x10000) / 0x400) ++ unit (0xDC00 + (n - 0x10000) % 0x400)

def jsonString (s : String) : String :=
  "\"" ++ String.join (s.toList.map escape) ++ "\""

def jsonValue : FieldValue → String
  | .text s => jsonString s
  | .number n => toString n
  | .texts ss => "[" ++ joinWith ", " (ss.map jsonString) ++ "]"

def jsonObject (fields : List (String × FieldValue)) : String :=
  "\x7b" ++ joinWith ", " (fields.map fun (name, value) => jsonString name ++ ": " ++ jsonValue value)
    ++ "\x7d"

/-- A line for people. -/
def plainLine (event : Event) : String :=
  let value : FieldValue → String
    | .text s => s
    | .number n => toString n
    | .texts ss => "[" ++ joinWith ", " (ss.map quoted) ++ "]"
  joinWith " " (("[" ++ levelName event.level ++ "]") :: event.name ::
    event.fields.map fun (name, v) => name ++ "=" ++ value v)

def render (log : Log) (event : Event) : String :=
  if log.isStructured then jsonObject (log.line event) else plainLine event

end Log

end CommandTrace
