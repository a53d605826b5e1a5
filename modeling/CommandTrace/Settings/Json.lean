/-
JSON texts, in which an environment variable gives a list or a whole section.

Numbers come apart into whole ones and the rest, which is kept as it is
written. A string may name a lone surrogate, so its value is a `Text`, and so
is the name of a field. Arrays and objects can be read only so far inside one
another.
-/
import CommandTrace.Syntax.Literal
import CommandTrace.Text.Numeral

namespace CommandTrace

inductive Json where
  | null
  | bool (value : Bool)
  | int (value : Int)
  /-- A number with a point or an exponent: `mantissa` times a power of ten. -/
  | decimal (mantissa : Int) (exponent : Int)
  /-- Infinity, or not a number. -/
  | nonFinite
  | string (value : Text)
  | array (items : List Json)
  | object (fields : List (Text × Json))
deriving Inhabited

/-- What can be inside one another. -/
inductive Nesting where
  | array
  | object
deriving DecidableEq, Repr

/-- Why a text is no JSON that can be read. -/
inductive JsonError where
  | malformed
  | tooDeep (nesting : Nesting)
deriving DecidableEq, Repr

namespace Json

/-- The fields of an object, in their order. -/
abbrev Fields := List (Text × Json)

/-- The field of a name. -/
def field? (fields : Fields) (name : Text) : Option Json :=
  (fields.find? fun f => f.1 = name).map Prod.snd

/-- Gives a field a value. One that is there already keeps its place. -/
def assign (fields : Fields) (name : Text) (value : Json) : Fields :=
  if fields.any fun f => f.1 = name then
    fields.map fun f => if f.1 = name then (name, value) else f
  else fields ++ [(name, value)]

/-- The fields with each name once; of several values the last counts. -/
def collapse (fields : Fields) : Fields :=
  fields.foldl (fun done (name, value) => assign done name value) []

/-! ## Reading -/

def isSpace (c : Char) : Bool :=
  c = ' ' || c = '\t' || c = '\n' || c = '\r'

def skip (cs : List Char) : List Char :=
  cs.dropWhile isSpace

/-- Four hexadecimal digits and what follows them. -/
def hex4? (cs : List Char) : Option (Nat × List Char) :=
  let digits := Literal.hexDigits 4 cs
  if digits.length = 4 then some (Literal.hexValue digits, cs.drop 4) else none

/-- The code point of a number below the limit. -/
def point? (n : Nat) : Option CodePoint :=
  if h : n < 0x110000 then some ⟨n, h⟩ else none

/-- The code point after a backslash and `u`; two that make a pair are one. -/
def escapedPoint? (cs : List Char) : Option (CodePoint × List Char) := do
  let (high, rest) ← hex4? cs
  let alone := (point? high).map fun p => (p, rest)
  if 0xD800 ≤ high ∧ high < 0xDC00 then
    match rest with
    | '\\' :: 'u' :: more =>
      let (low, rest') ← hex4? more
      if 0xDC00 ≤ low ∧ low < 0xE000 then
        (point? (0x10000 + (high - 0xD800) * 0x400 + (low - 0xDC00))).map fun p => (p, rest')
      else alone
    | _ => alone
  else alone

def simpleEscape? : Char → Option Char
  | '"' => some '"'
  | '\\' => some '\\'
  | '/' => some '/'
  | 'b' => some '\x08'
  | 'f' => some '\x0c'
  | 'n' => some '\n'
  | 'r' => some '\r'
  | 't' => some '\t'
  | _ => none

/-- The rest of a string whose opening quote has been read. -/
def stringTail : (fuel : Nat) → List Char → Option (Text × List Char)
  | 0, _ => none
  | _ + 1, [] => none
  | _ + 1, '"' :: rest => some ([], rest)
  | fuel + 1, '\\' :: 'u' :: rest => do
    let (p, rest) ← escapedPoint? rest
    let (text, rest) ← stringTail fuel rest
    return (p :: text, rest)
  | fuel + 1, '\\' :: c :: rest => do
    let c ← simpleEscape? c
    let (text, rest) ← stringTail fuel rest
    return (.ofChar c :: text, rest)
  | fuel + 1, c :: rest =>
    if c.toNat < 0x20 then none
    else do
      let (text, rest) ← stringTail fuel rest
      return (.ofChar c :: text, rest)

def isDigit (c : Char) : Bool :=
  '0' ≤ c && c ≤ '9'

def digitValue (cs : List Char) : Nat :=
  Numeral.value (cs.map fun c => c.toNat - '0'.toNat)

/-- The digits after a point, where there are any. -/
def fraction (cs : List Char) : List Char × List Char :=
  match cs with
  | '.' :: rest =>
    let digits := rest.takeWhile isDigit
    if digits.isEmpty then ([], cs) else (digits, rest.drop digits.length)
  | _ => ([], cs)

/-- An exponent, where there is one. -/
def exponent (cs : List Char) : Option Int × List Char :=
  let read (sign : Int) (rest : List Char) : Option Int × List Char :=
    let digits := rest.takeWhile isDigit
    if digits.isEmpty then (none, cs) else (some (sign * digitValue digits), rest.drop digits.length)
  match cs with
  | e :: sign :: rest =>
    if e = 'e' ∨ e = 'E' then
      if sign = '-' then read (-1) rest
      else if sign = '+' then read 1 rest
      else read 1 (sign :: rest)
    else (none, cs)
  | _ => (none, cs)

/-- A number without its sign. A whole number with too many digits is none. -/
def number? (sign : Int) (cs : List Char) : Option (Json × List Char) :=
  let whole := match cs with
    | '0' :: _ => ['0']
    | _ => cs.takeWhile isDigit
  if whole.isEmpty then none
  else
    let (point, rest) := fraction (cs.drop whole.length)
    let (power, rest) := exponent rest
    if point.isEmpty ∧ power.isNone then
      if whole.length ≤ Numeral.limit then some (.int (sign * digitValue whole), rest) else none
    else
      some (.decimal (sign * digitValue (whole ++ point)) (power.getD 0 - point.length), rest)

def orMalformed {α : Type} : Option α → Except JsonError α
  | some a => .ok a
  | none => .error .malformed

mutual

/-- The value that a text starts with, and the rest. Up to `depth` arrays and
objects may be inside one another. -/
def value (depth : Nat) : (fuel : Nat) → List Char → Except JsonError (Json × List Char)
  | 0, _ => .error .malformed
  | fuel + 1, cs =>
    match cs with
    | '"' :: rest => orMalformed ((stringTail fuel rest).map fun (text, rest) => (.string text, rest))
    | '[' :: rest =>
      match depth, skip rest with
      | 0, _ => .error (.tooDeep .array)
      | _, ']' :: rest => .ok (.array [], rest)
      | depth + 1, rest => (items depth fuel rest).map fun (items, rest) => (.array items, rest)
    | '{' :: rest =>
      match depth, skip rest with
      | 0, _ => .error (.tooDeep .object)
      | _, '}' :: rest => .ok (.object [], rest)
      | depth + 1, rest =>
        (fields depth fuel rest).map fun (fields, rest) => (.object (collapse fields), rest)
    | 'n' :: 'u' :: 'l' :: 'l' :: rest => .ok (.null, rest)
    | 't' :: 'r' :: 'u' :: 'e' :: rest => .ok (.bool true, rest)
    | 'f' :: 'a' :: 'l' :: 's' :: 'e' :: rest => .ok (.bool false, rest)
    | 'N' :: 'a' :: 'N' :: rest => .ok (.nonFinite, rest)
    | 'I' :: 'n' :: 'f' :: 'i' :: 'n' :: 'i' :: 't' :: 'y' :: rest => .ok (.nonFinite, rest)
    | '-' :: 'I' :: 'n' :: 'f' :: 'i' :: 'n' :: 'i' :: 't' :: 'y' :: rest => .ok (.nonFinite, rest)
    | '-' :: rest => orMalformed (number? (-1) rest)
    | _ => orMalformed (number? 1 cs)

/-- The items of an array from one of them on. -/
def items (depth : Nat) : (fuel : Nat) → List Char → Except JsonError (List Json × List Char)
  | 0, _ => .error .malformed
  | fuel + 1, cs => do
    let (item, rest) ← value depth fuel cs
    match skip rest with
    | ']' :: rest => return ([item], rest)
    | ',' :: rest =>
      let (others, rest) ← items depth fuel (skip rest)
      return (item :: others, rest)
    | _ => .error .malformed

/-- The fields of an object from one of them on. -/
def fields (depth : Nat) : (fuel : Nat) → List Char → Except JsonError (Fields × List Char)
  | 0, _ => .error .malformed
  | fuel + 1, cs =>
    match cs with
    | '"' :: rest => do
      let (name, rest) ← orMalformed (stringTail fuel rest)
      match skip rest with
      | ':' :: rest =>
        let (first, rest) ← value depth fuel (skip rest)
        match skip rest with
        | '}' :: rest => return ([(name, first)], rest)
        | ',' :: rest =>
          let (others, rest) ← fields depth fuel (skip rest)
          return ((name, first) :: others, rest)
        | _ => .error .malformed
      | _ => .error .malformed
    | _ => .error .malformed

end

/-- How many arrays and objects may be inside one another. -/
def depthLimit : Nat := 980

/-- The value of a whole text. -/
def parse (s : String) : Except JsonError Json := do
  let cs := s.toList
  let (result, rest) ← value depthLimit (2 * cs.length + 2) (skip cs)
  if (skip rest).isEmpty then return result else .error .malformed

/-- Whether a value means yes where one is asked for that is yes or no. -/
def isYes : Json → Bool
  | null => false
  | bool b => b
  | int n => n ≠ 0
  | decimal mantissa _ => mantissa ≠ 0
  | nonFinite => true
  | string t => t ≠ []
  | array items => !items.isEmpty
  | object fields => !fields.isEmpty

/-! ## Merging -/

mutual

/-- Puts `new` over `old`: objects are merged field by field, anything else is
taken from `new`. -/
def update (old new : Json) : Json :=
  match old, new with
  | .object olds, .object news => .object (updateFields olds news)
  | _, new => new

/-- Puts the fields of `news` over those of `olds`. -/
def updateFields (olds : Fields) : Fields → Fields
  | [] => olds
  | (name, new) :: rest =>
    match field? olds name with
    | some old => updateFields (assign olds name (update old new)) rest
    | none => updateFields (assign olds name new) rest

end

/-- Puts a value under a name inside the objects along a path, which are made
where there is nothing. Where something else is, nothing happens. If `weak`,
the value takes no other's place than that of an empty object. -/
def plant (weak : Bool) (name : Text) (new : Json) : List Text → Fields → Fields
  | [], fields =>
    match field? fields name with
    | none | some (.object []) => assign fields name new
    | some _ => if weak then fields else assign fields name new
  | key :: rest, fields =>
    match field? fields key with
    | none => assign fields key (.object (plant weak name new rest []))
    | some (.object inner) => assign fields key (.object (plant weak name new rest inner))
    | some _ => fields

end Json

end CommandTrace
