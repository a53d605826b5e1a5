/-
The words of a command line.

A word that starts with a dash is an option, unless it is a number or has a
blank in it; a long option may be cut short as long as it stays the only one.
The first unbroken row of other words gives the paths. Words that are none of
these are refused together, after everything else has been read.
-/
import CommandTrace.Path
import CommandTrace.Text.Numeral
import CommandTrace.Text.Quoted
import CommandTrace.Text.Upper

namespace CommandTrace

/-- Where a command line wants the report. -/
inductive OutputRequest where
  /-- Where it usually goes. -/
  | usual
  | file (path : Path)
  /-- To a file, of which nothing is said. -/
  | nowhere
deriving DecidableEq, Repr

/-- What a command line asks for. -/
structure Arguments where
  paths : List String := []
  ruleFile : Option Path := none
  output : OutputRequest := .usual
  level : Option String := none
deriving DecidableEq, Repr

namespace Arguments

/-! ## Options -/

/-- An option that takes a value. -/
inductive Flag where
  | ruleFile
  | output
  | level
deriving DecidableEq, Repr

inductive Switch where
  | help
  | flag (f : Flag)
deriving DecidableEq, Repr

/-- All spellings of all options. -/
def spellings : List (String × Switch) :=
  [("-h", .help), ("--help", .help), ("--arg-map", .flag .ruleFile), ("--output", .flag .output),
    ("--log-level", .flag .level)]

def Flag.name : Flag → String
  | ruleFile => "--arg-map"
  | output => "--output"
  | level => "--log-level"

/-- The levels that can be asked for. -/
def levels : List String :=
  ["DEBUG", "INFO", "WARNING", "ERROR", "CRITICAL"]

/-! ## Errors and texts -/

inductive Error where
  /-- A shortened option that may be any of several. -/
  | ambiguous (word : String) (candidates : List String)
  | missingValue (flag : Flag)
  /-- A value for the option that shows help. -/
  | unwantedValue (value : String)
  | unknownLevel (level : String)
  | unrecognized (words : List String)
deriving DecidableEq, Repr

def Error.message : Error → String
  | ambiguous word candidates =>
    "ambiguous option: " ++ word ++ " could match " ++ joinWith ", " candidates
  | missingValue flag => "argument " ++ flag.name ++ ": expected one argument"
  | unwantedValue value => "argument -h/--help: ignored explicit argument " ++ quoted value
  | unknownLevel level =>
    "argument --log-level: invalid choice: " ++ quoted level ++ " (choose from " ++
      joinWith ", " (levels.map quoted) ++ ")"
  | unrecognized words => "unrecognized arguments: " ++ joinWith " " words

def usage : List String :=
  ["usage: proctrace [-h] [--arg-map ARG_MAP] [--output OUTPUT]",
    "                 [--log-level \x7bDEBUG,INFO,WARNING,ERROR,CRITICAL\x7d]",
    "                 [code-root-path [file-glob] ...]"]

def help : List String :=
  usage ++
  ["",
    "Find SQL command texts passed to data-access calls in a C# code base",
    "",
    "positional arguments:",
    "  code-root-path [file-glob]",
    "                        Root directory of the code base, optionally followed",
    "                        by a glob for pass-1 files",
    "",
    "options:",
    "  -h, --help            show this help message and exit",
    "  --arg-map ARG_MAP     Argument map rules file (default:",
    "                        EXTRACTOR_ARG_MAP_FILE or argMap.txt)",
    "  --output OUTPUT       CSV output file (default: storedprocs.csv next to the",
    "                        argument map)",
    "  --log-level \x7bDEBUG,INFO,WARNING,ERROR,CRITICAL\x7d",
    "                        Log level overriding LOG_LEVEL"]

/-! ## Kinds of words -/

inductive Word where
  /-- A path, or the value of an option. -/
  | plain (text : String)
  /-- The two dashes after which there are no options. -/
  | divider
  | unknown (text : String)
  /-- Help, or what is wrong with asking for it. -/
  | help (outcome : Except Error Unit)
  | option (flag : Flag) (value : Option String)

/-- What stands before and after the first `=`. -/
def splitValue (s : String) : String × Option String :=
  let cs := s.toList
  let before := cs.takeWhile (· ≠ '=')
  match cs.drop before.length with
  | [] => (s, none)
  | _ :: after => (String.ofList before, some (String.ofList after))

/-- What is written together with the short option for help: more of the
same, and no value. -/
def helpTail : List Char → Except Error Unit
  | ['h'] => .ok ()
  | 'h' :: c :: rest => helpTail (c :: rest)
  | cs => .error (.unwantedValue (String.ofList cs))

/-- The word for an option that is spelled so and has this value. -/
def Switch.word (spelling : String) (value : Option String) : Switch → Word
  | flag f => .option f value
  | help =>
    match value with
    | none => .help (.ok ())
    | some v => .help (if spelling = "-h" then helpTail v.toList else .error (.unwantedValue v))

def isDigit (c : Char) : Bool :=
  (Numeral.digit? c).isSome

/-- A minus sign with digits after it, and perhaps a point among them. A line
feed at the end does not matter. -/
def isNegativeNumber (cs : List Char) : Bool :=
  match cs with
  | '-' :: rest =>
    let rest := if rest.getLast? = some '\n' then rest.dropLast else rest
    let whole := rest.takeWhile isDigit
    match rest.drop whole.length with
    | [] => !whole.isEmpty
    | '.' :: fraction => !fraction.isEmpty && fraction.all isDigit
    | _ => false
  | _ => false

/-- A word that is no option by its spelling. -/
def loose (s : String) : Word :=
  if isNegativeNumber s.toList || s.toList.contains ' ' then .plain s else .unknown s

/-- The kind of a word before the divider. -/
def classify (s : String) : Except Error Word :=
  match s.toList with
  | '-' :: second :: rest =>
    let (name, value) := splitValue s
    match spellings.lookup s, spellings.lookup name with
    | some switch, _ => .ok (switch.word s none)
    | none, some switch => .ok (switch.word name value)
    | none, none =>
      if second = '-' then
        match spellings.filter fun (spelling, _) => name.toList.isPrefixOf spelling.toList with
        | [] => .ok (loose s)
        | [(spelling, switch)] => .ok (switch.word spelling value)
        | several => .error (.ambiguous s (several.map Prod.fst))
      else if second = 'h' then .ok (.help (helpTail rest))
      else .ok (loose s)
  | _ => .ok (.plain s)

/-- The kinds of all words. -/
def words : List String → Except Error (List Word)
  | [] => .ok []
  | s :: rest =>
    if s = "--" then .ok (.divider :: rest.map .plain)
    else do
      let word ← classify s
      return word :: (← words rest)

/-! ## Reading -/

/-- How far the row of paths has come. -/
inductive PathRow where
  | ahead
  | begun
  | closed
deriving DecidableEq, Repr

structure State where
  arguments : Arguments := {}
  row : PathRow := .ahead
  refused : List String := []

/-- An option ends the row of paths if it has begun. -/
def State.endRow (s : State) : State :=
  { s with row := if s.row = .begun then .closed else s.row }

/-- A word of the row of paths, or after it. -/
def State.place (s : State) (text : String) (paths : List String) : State :=
  match s.row with
  | .closed => { s with refused := s.refused ++ [text] }
  | _ => { s with row := .begun, arguments := { s.arguments with paths := s.arguments.paths ++ paths } }

def State.set (s : State) (flag : Flag) (value : String) : Except Error State :=
  match flag with
  | .ruleFile => .ok { s with arguments := { s.arguments with ruleFile := some (.ofString value) } }
  | .output => .ok { s with arguments := { s.arguments with output := .file (.ofString value) } }
  | .level =>
    let level := upperCase value
    if levels.contains level then
      .ok { s with arguments := { s.arguments with level := some level } }
    else .error (.unknownLevel level)

/-- An option that is there without a value. It takes back what was said
before. -/
def State.clear (s : State) (flag : Flag) : State :=
  match flag with
  | .ruleFile => { s with arguments := { s.arguments with ruleFile := none } }
  | .output => { s with arguments := { s.arguments with output := .nowhere } }
  | .level => { s with arguments := { s.arguments with level := none } }

/-- What is asked for: help, or a run. -/
inductive Request where
  | help
  | run (arguments : Arguments)
deriving DecidableEq, Repr

/-- Reads words in their order. Help is given as soon as it is asked for. The
divider is no value, not even after `=`. -/
def read (s : State) : List Word → Except Error Request
  | [] => if s.refused = [] then .ok (.run s.arguments) else .error (.unrecognized s.refused)
  | .plain text :: rest => read (s.place text [text]) rest
  | .divider :: rest => read (s.place "--" []) rest
  | .unknown text :: rest => read { s.endRow with refused := s.refused ++ [text] } rest
  | .help outcome :: _ => outcome.map fun _ => .help
  | .option flag (some value) :: rest =>
    if value = "--" then read (s.endRow.clear flag) rest
    else do read (← s.endRow.set flag value) rest
  | .option flag none :: .plain value :: rest => do read (← s.endRow.set flag value) rest
  | .option flag none :: _ => .error (.missingValue flag)

def parse (arguments : List String) : Except Error Request := do
  read {} (← words arguments)

end Arguments

end CommandTrace
