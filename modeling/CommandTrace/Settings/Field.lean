/-
Reading one setting from the value given for it.

Settings come from variables, which are strings, and from values that have a
kind already, so a number may also be given as its digits and a list as its
items between commas.
-/
import CommandTrace.Path
import CommandTrace.Settings.Double
import CommandTrace.Settings.Json
import CommandTrace.Settings.Problem
import CommandTrace.Text.Blank

namespace CommandTrace.Field

/-! ## Integers -/

/-- Blanks that may stand around a number. -/
def isPadding (c : Char) : Bool :=
  isBlank c && !(0x1C ≤ c.toNat && c.toNat ≤ 0x1F)

def trimPadding (cs : List Char) : List Char :=
  ((cs.dropWhile isPadding).reverse.dropWhile isPadding).reverse

/-- The numeral without zeros in front, which may have `_` between and after
them, and even a minus sign after that. -/
def dropZeros? : List Char → Option (List Char)
  | '0' :: rest =>
    let zeros := rest.takeWhile fun c => c = '0' || c = '_'
    let last := zeros.getLastD '0'
    match rest.drop zeros.length with
    | [] => some [last]
    | '.' :: more => some (last :: '.' :: more)
    | c :: more => if c = '-' ∨ '1' ≤ c ∧ c ≤ '9' then some (c :: more) else none
  | c :: rest => if '1' ≤ c ∧ c ≤ '9' then some (c :: rest) else none
  | [] => none

/-- The numeral without a point and the zeros after it. -/
def dropPoint (cs : List Char) : List Char :=
  let whole := cs.takeWhile (· ≠ '.')
  let places := cs.drop (whole.length + 1)
  if places ≠ [] ∧ places.all (· = '0') then whole else cs

def hasDoubleMark : List Char → Bool
  | '_' :: '_' :: _ => true
  | _ :: rest => hasDoubleMark rest
  | [] => false

/-- The numeral without single `_` between its digits. -/
def dropMarks (cs : List Char) : List Char :=
  if cs.head? = some '_' ∨ cs.getLast? = some '_' ∨ hasDoubleMark cs then cs
  else cs.filter (· ≠ '_')

/-- What is left of a string when all is gone that an integer may be written
with and need not be. -/
def clean? (cs : List Char) : Option (List Char) :=
  let body (cs : List Char) : Option (List Char) :=
    (dropZeros? cs).map fun cs => dropMarks (dropPoint cs)
  match trimPadding cs with
  | '+' :: '-' :: _ => none
  | '+' :: rest => body rest
  | '-' :: rest => (body rest).map ('-' :: ·)
  | cs => body cs

/-- The number of a plain numeral: digits, of which the first is no zero unless
it is the only one. -/
def natural? (cs : List Char) : Option Nat :=
  if cs ≠ [] ∧ cs.all Json.isDigit ∧ (cs.head? = some '0' → cs.length = 1) ∧
      cs.length ≤ Numeral.limit then
    some (Json.digitValue cs)
  else none

def plainInteger? : List Char → Option Int
  | '-' :: digits => (natural? digits).map fun n => -(n : Int)
  | digits => (natural? digits).map Int.ofNat

/-- Whether a string starts with a plain numeral that is too long to be read. -/
def startsTooLong (cs : List Char) : Bool :=
  let digits := (if cs.head? = some '-' then cs.tail else cs).takeWhile Json.isDigit
  digits.head? ≠ some '0' && Numeral.limit < digits.length

/-- The integer that a string spells. -/
def readInteger (cs : List Char) : Except Flaw Int :=
  if startsTooLong cs then .error .longInteger
  else
    match (clean? cs).bind plainInteger? with
    | some n => .ok n
    | none => .error .unreadableInteger

/-- The magnitude from which on a number with a point or an exponent is too
large for an integer. -/
def wordLimit : Nat := Nat.pow 2 63

/-- The integer that a number with a point or an exponent is equal to. -/
def wholeNumber (mantissa exponent : Int) : Except Flaw Int :=
  match Double.ofDecimal? mantissa.natAbs exponent with
  | none => .error .notFinite
  | some x =>
    match x.whole? with
    | none => .error .fraction
    | some n => if n < wordLimit then .ok (mantissa.sign * n) else .error .longInteger

def integer (value : Json) : Except Flaw Int :=
  match value with
  | .int n => .ok n
  | .bool b => .ok (if b then 1 else 0)
  | .string t =>
    match t.toString? with
    | some s => readInteger s.toList
    | none => .error .notUnicode
  | .decimal mantissa exponent => wholeNumber mantissa exponent
  | .nonFinite => .error .notFinite
  | .null | .array _ | .object _ => .error .notInteger

/-- An integer from `least` to `most`. -/
def integerIn (least most : Int) (value : Json) : Except Flaw Int := do
  let n ← integer value
  if n < least then .error (.below least)
  else if most < n then .error (.above most)
  else return n

/-! ## Texts, paths and lists -/

def text (value : Json) : Except Flaw Text :=
  match value with
  | .string t => .ok t
  | _ => .error .notString

/-- The text of a path, in normal form. -/
def path (value : Json) : Except Flaw Text :=
  match value with
  | .string t => .ok (Path.normalText t)
  | _ => .error .notPath

/-- The texts between commas, without blanks around them and without the empty
ones. -/
def commaItems (t : Text) : List Json :=
  (((fields (.ofChar ',') t).map Text.strip).filter (· ≠ [])).map .string

def texts (name : String) (value : Json) : Checked (List Text) :=
  let items := match value with
    | .string t => some (commaItems t)
    | .array items => some items
    | _ => none
  match items with
  | some items => Checked.traverse (fun i item => .ofExcept [name, toString i] (text item)) 0 items
  | none => .invalid [⟨[name], .notList⟩]

/-! ## Fields of a section -/

/-- A field that one value gives, or its default if there is none. -/
def read {α : Type} (fields : Json.Fields) (name : String) (default : α)
    (check : Json → Except Flaw α) : Checked α :=
  match Json.field? fields (.ofString name) with
  | some value => .ofExcept [name] (check value)
  | none => .valid default

def readTexts (fields : Json.Fields) (name : String) (default : List Text) : Checked (List Text) :=
  match Json.field? fields (.ofString name) with
  | some value => texts name value
  | none => .valid default

/-- Refuses fields that have no name in `names`. If one of them cannot even be
shown, nothing else is said. -/
def onlyNamed {α : Type} (names : List String) (fields : Json.Fields) (checked : Checked α) :
    Checked α :=
  let unknown := (fields.map Prod.fst).filter fun name => !(names.map Text.ofString).contains name
  match unknown.mapM Text.toString? with
  | none => .invalid [⟨[], .notUnicode⟩]
  | some [] => checked
  | some unknown =>
    checked <* (.invalid (unknown.map fun name => ⟨[name], .unknownField⟩) : Checked Unit)

end CommandTrace.Field
