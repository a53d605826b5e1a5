/-
What literals denote.

The body of a regular string or character literal is cut into units first,
from the left and without looking back, and each unit then has a value of its
own. So decoding fails exactly on a unit that names no code point.
-/
import CommandTrace.Fault
import CommandTrace.Syntax.Tree
import CommandTrace.Text
import CommandTrace.Text.Blank

namespace CommandTrace

namespace Literal

/-- The smallest parts of a literal's body that have a value. -/
inductive Part where
  /-- A character that stands for itself. -/
  | plain (c : Char)
  /-- A backslash and the character after it. -/
  | escaped (c : Char)
  /-- A backslash, a letter, and the hexadecimal number after it. -/
  | coded (value : Nat)
deriving DecidableEq, Repr

def hexDigit? (c : Char) : Option Nat :=
  if '0' ≤ c ∧ c ≤ '9' then some (c.toNat - '0'.toNat)
  else if 'a' ≤ c ∧ c ≤ 'f' then some (c.toNat - 'a'.toNat + 10)
  else if 'A' ≤ c ∧ c ≤ 'F' then some (c.toNat - 'A'.toNat + 10)
  else none

/-- The hexadecimal digits a text starts with, at most `most` of them. -/
def hexDigits : (most : Nat) → List Char → List Nat
  | 0, _ => []
  | _ + 1, [] => []
  | most + 1, c :: rest =>
    match hexDigit? c with
    | some d => d :: hexDigits most rest
    | none => []

def hexValue (digits : List Nat) : Nat :=
  digits.foldl (fun n d => 16 * n + d) 0

/-- The least and the most digits of the number after `\u`, `\U` and `\x`. -/
def codeWidth? : Char → Option (Nat × Nat)
  | 'u' => some (4, 4)
  | 'U' => some (8, 8)
  | 'x' => some (1, 4)
  | _ => none

/-- The part that a backslash starts, given what follows the backslash, and
how many characters of `rest` belong to it. A letter without enough digits
after it is an escape like any other. -/
def escapePart (c : Char) (rest : List Char) : Part × Nat :=
  match codeWidth? c with
  | none => (.escaped c, 0)
  | some (least, most) =>
    let digits := hexDigits most rest
    if digits.length < least then (.escaped c, 0) else (.coded (hexValue digits), digits.length)

/-- The parts of a body, from the left. A backslash at the very end stands for
itself. -/
def parts : List Char → List Part
  | [] => []
  | '\\' :: c :: rest =>
    let (part, used) := escapePart c rest
    part :: parts (rest.drop used)
  | c :: rest => .plain c :: parts rest
termination_by cs => cs.length
decreasing_by all_goals simp only [List.length_drop, List.length_cons]; omega

/-- The character a simple escape denotes; any other character denotes
itself. -/
def simpleEscape : Char → Char
  | '0' => '\x00'
  | 'a' => '\x07'
  | 'b' => '\x08'
  | 'e' => '\x1b'
  | 'f' => '\x0c'
  | 'n' => '\n'
  | 'r' => '\r'
  | 't' => '\t'
  | 'v' => '\x0b'
  | c => c

/-- Numbers up to this one fit a machine integer. -/
def machineLimit : Nat := 0x7FFFFFFF

def Part.value : Part → Except Fault CodePoint
  | plain c => .ok (.ofChar c)
  | escaped c => .ok (.ofChar (simpleEscape c))
  | coded n =>
    if h : n < 0x110000 then .ok ⟨n, h⟩
    else if n ≤ machineLimit then .error .pastLastCodePoint
    else .error .pastMachineInteger

/-- The values of the parts, up to the first that has none. -/
def values : List Part → Except Fault Text
  | [] => .ok []
  | part :: rest => do
    let p ← part.value
    let ps ← values rest
    return p :: ps

def unescape (body : List Char) : Except Fault Text :=
  values (parts body)

/-- What stands between the first and the last character. -/
def inner (cs : List Char) : List Char :=
  (cs.drop 1).dropLast

/-- A regular string literal may be followed by `u8`. -/
def dropSuffix (cs : List Char) : List Char :=
  if ['u', '8'].isSuffixOf cs then cs.take (cs.length - 2) else cs

/-- Each pair of quotes becomes one. -/
def undouble : List Char → List Char
  | [] => []
  | '"' :: '"' :: rest => '"' :: undouble rest
  | c :: rest => c :: undouble rest

/-- The value of a verbatim literal: what follows its first quote, without the
last character. -/
def verbatim (cs : List Char) : Except Fault Text :=
  match cs.dropWhile (· ≠ '"') with
  | [] => .error .noOpeningQuote
  | _ :: rest => .ok (.ofChars (undouble rest.dropLast))

/-- The value of a raw literal: what stands between as many quotes as it
starts with, trimmed if it has a line break. -/
def raw (cs : List Char) : Text :=
  let quotes := (cs.takeWhile (· = '"')).length
  let body := if quotes = 0 then [] else (cs.drop quotes).take (cs.length - 2 * quotes)
  .ofChars (if body.contains '\n' then trim body else body)

/-- The value of a literal from its type and its source text. Numbers, truth
values and null keep their text. -/
def value (type : String) (source : List Char) : Except Fault Text :=
  match type with
  | "string_literal" => unescape (inner (dropSuffix source))
  | "character_literal" => unescape (inner source)
  | "verbatim_string_literal" => verbatim source
  | "raw_string_literal" => .ok (raw source)
  | _ => .ok (.ofChars source)

end Literal

namespace SyntaxTree

variable (t : SyntaxTree)

/-- The value of a literal node. A node that only wraps a literal has the
value of its first named child. -/
def literalValue (i : Nat) : Except Fault Text :=
  if t.type i = "literal" then
    match _h : t.namedChildren i with
    | [] => .ok (.ofString (t.text i))
    | c :: _ => literalValue c
  else Literal.value (t.type i) (t.text i).toList
termination_by t.size - i
decreasing_by
  have hc : c ∈ t.namedChildren i := by simp [*]
  have := t.lt_of_mem_children (List.mem_filter.mp hc).1
  omega

variable {t}

theorem literalValue_of_type {i : Nat} {type : String} (h : t.type i = type) (htype : type ≠ "literal") :
    t.literalValue i = Literal.value type (t.text i).toList := by
  rw [literalValue, if_neg (h ▸ htype), h]

end SyntaxTree

end CommandTrace
