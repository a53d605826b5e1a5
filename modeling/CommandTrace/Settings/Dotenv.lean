/-
Files of variables: lines `name=value`, with comments, quotes and an optional
`export` before the name.

A value in quotes may run over several lines and have escapes; one without
ends at a comment or the line's end. `${name}` in a value stands for the
variable's value, and `${name:-text}` gives what to use if there is none. A
line that is none of these is left out, and its number is kept.
-/
import CommandTrace.Text.Blank
import CommandTrace.Text.Line

namespace CommandTrace.Dotenv

/-- A variable of the file; one without `=` has no value. -/
abbrev Binding := String × Option String

/-! ## Parts of a line -/

/-- Blanks that do not end a line. -/
def isGap (c : Char) : Bool :=
  isBlank c && c ≠ '\r' && c ≠ '\n'

def skipGap (cs : List Char) : List Char :=
  cs.dropWhile isGap

def isInLine (c : Char) : Bool :=
  c ≠ '\r' && c ≠ '\n'

def skipExport (cs : List Char) : List Char :=
  let rest := cs.drop 6
  if cs.take 6 = "export".toList ∧ rest.head?.any isGap then skipGap rest else cs

/-- The text without a byte order mark in front. -/
def dropMark : List Char → List Char
  | '\uFEFF' :: rest => rest
  | cs => cs

/-- The text up to a closing quote. What follows a backslash closes nothing. -/
def quotedTail (quote : Char) : List Char → Option (List Char × List Char)
  | [] => none
  | '\\' :: c :: rest => (quotedTail quote rest).map fun (text, after) => ('\\' :: c :: text, after)
  | c :: rest =>
    if c = quote then some ([], rest)
    else (quotedTail quote rest).map fun (text, after) => (c :: text, after)

/-- The escapes of a value in single quotes. -/
def singleEscape? : Char → Option Char
  | '\\' => some '\\'
  | '\'' => some '\''
  | _ => none

/-- The escapes of a value in double quotes. -/
def doubleEscape? : Char → Option Char
  | '\\' => some '\\'
  | '\'' => some '\''
  | '"' => some '"'
  | 'a' => some '\x07'
  | 'b' => some '\x08'
  | 'f' => some '\x0c'
  | 'n' => some '\n'
  | 'r' => some '\r'
  | 't' => some '\t'
  | 'v' => some '\x0b'
  | _ => none

def unescape (escape? : Char → Option Char) : List Char → List Char
  | '\\' :: c :: rest =>
    match escape? c with
    | some d => d :: unescape escape? rest
    | none => '\\' :: unescape escape? (c :: rest)
  | c :: rest => c :: unescape escape? rest
  | [] => []

/-- What stands before a comment: a `#` after a blank; and whether a `#` comes
first, but for blanks. -/
def splitComment : List Char → List Char × Bool
  | [] => ([], false)
  | c :: rest =>
    let (text, markNext) := splitComment rest
    if isBlank c then (if markNext then [] else c :: text, markNext) else (c :: text, c = '#')

/-- A name: in single quotes, or up to `=`, `#` or a blank. A comment has
none. -/
def name? (cs : List Char) : Option (Option (List Char) × List Char) :=
  match cs with
  | '#' :: _ => some (none, cs)
  | '\'' :: rest =>
    let name := rest.takeWhile (· ≠ '\'')
    match name, rest.drop name.length with
    | _ :: _, _ :: after => some (some name, after)
    | _, _ => none
  | _ =>
    let name := cs.takeWhile fun c => c ≠ '=' && c ≠ '#' && !isBlank c
    if name.isEmpty then none else some (some name, cs.drop name.length)

/-- A value with the gap in front of it. A comment may come right after the
gap. -/
def value? (cs : List Char) : Option (List Char × List Char) :=
  match skipGap cs with
  | '\'' :: rest => (quotedTail '\'' rest).map fun (text, after) => (unescape singleEscape? text, after)
  | '"' :: rest => (quotedTail '"' rest).map fun (text, after) => (unescape doubleEscape? text, after)
  | _ =>
    let text := cs.takeWhile isInLine
    some (trim (splitComment text).1, cs.drop text.length)

def skipComment (cs : List Char) : List Char :=
  match skipGap cs with
  | '#' :: rest => rest.dropWhile isInLine
  | _ => cs

/-- What follows the end of a line, if only gaps stand before it. -/
def endOfLine? (cs : List Char) : Option (List Char) :=
  match skipGap cs with
  | [] => some []
  | '\r' :: '\n' :: rest => some rest
  | '\n' :: rest => some rest
  | '\r' :: rest => some rest
  | _ => none

def skipLine (cs : List Char) : List Char :=
  match cs.dropWhile isInLine with
  | [] => []
  | _ :: rest => rest

/-! ## The file -/

/-- The binding at the start of a text, and the rest. On failure, what was
left at the fault. -/
def statement (cs : List Char) : Except (List Char) (Option Binding × List Char) :=
  let cs := cs.dropWhile isBlank
  if cs.isEmpty then .ok (none, [])
  else
    let cs := skipExport cs
    match name? cs with
    | none => .error cs
    | some (name, rest) =>
      let rest := skipGap rest
      match rest with
      | '=' :: after =>
        match value? after with
        | none => .error after
        | some (value, rest) =>
          match endOfLine? (skipComment rest) with
          | none => .error (skipComment rest)
          | some rest => .ok (name.map fun n => (String.ofList n, some (String.ofList value)), rest)
      | _ =>
        match endOfLine? (skipComment rest) with
        | none => .error (skipComment rest)
        | some rest => .ok (name.map fun n => (String.ofList n, none), rest)

/-- The bindings of a text and the numbers of the lines that start none. -/
structure Contents where
  bindings : List Binding := []
  faulty : List Nat := []
deriving DecidableEq, Repr

/-- Reads the statements of a text that has `last` lines and ends with `cs`.
Each takes at least one character, so `fuel` need not exceed the length. -/
def contentsFrom (last : Nat) : (fuel : Nat) → List Char → Contents
  | 0, _ => {}
  | _ + 1, [] => {}
  | fuel + 1, cs =>
    match statement cs with
    | .ok (binding, rest) =>
      let more := contentsFrom last fuel rest
      { more with bindings := binding.toList ++ more.bindings }
    | .error rest =>
      let more := contentsFrom last fuel (skipLine rest)
      { more with faulty := (last - cs.count '\n') :: more.faulty }

def contents (cs : List Char) : Contents :=
  contentsFrom (cs.count '\n' + 1) cs.length cs

/-! ## Variables in values -/

/-- The variable that stands after `${`, its default, and what follows. -/
def usedName? (cs : List Char) : Option (String × Option String × List Char) :=
  let name := cs.takeWhile fun c => c ≠ '}' && c ≠ ':'
  match cs.drop name.length with
  | '}' :: rest => some (String.ofList name, none, rest)
  | ':' :: '-' :: more =>
    let text := more.takeWhile (· ≠ '}')
    match more.drop text.length with
    | _ :: rest => some (String.ofList name, some (String.ofList text), rest)
    | [] => none
  | _ => none

/-- The value with its variables filled in. -/
def expand (known : String → Option String) : (fuel : Nat) → List Char → List Char
  | 0, cs => cs
  | _ + 1, [] => []
  | fuel + 1, '$' :: '{' :: rest =>
    match usedName? rest with
    | some (name, default, after) =>
      ((known name).getD (default.getD "")).toList ++ expand known fuel after
    | none => '$' :: expand known fuel ('{' :: rest)
  | fuel + 1, c :: rest => c :: expand known fuel rest

/-- Gives a variable a value. One that had a value before keeps its place. -/
def assign (bindings : List Binding) (name : String) (value : Option String) : List Binding :=
  if bindings.any fun b => b.1 = name then
    bindings.map fun b => if b.1 = name then (name, value) else b
  else bindings ++ [(name, value)]

/-- The variables with those in their values filled in, from the bindings
before and from the environment. -/
def filledIn (environment : List (String × String)) (bindings : List Binding) : List Binding :=
  bindings.foldl (fun done (name, value) =>
    let known (used : String) : Option String :=
      match done.lookup used with
      | some value => some (value.getD "")
      | none => environment.lookup used
    assign done name (value.map fun v => String.ofList (expand known (v.length + 1) v.toList))) []

end CommandTrace.Dotenv
