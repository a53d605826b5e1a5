/-
Whole numbers written in decimal digits of any script.

Each script's ten digits stand in a row, so a digit's value is its distance
from the zero of its row. `readInt?` accepts one sign, digits, and single
underscores between digits; blanks around the numeral are the caller's to take
off. A numeral of more than `Numeral.limit` digits is no number.
-/

namespace CommandTrace.Numeral

/-- The zeros of the decimal digit rows. -/
def zeros : List Nat := [
  0x30, 0x660, 0x6F0, 0x7C0, 0x966, 0x9E6, 0xA66, 0xAE6, 0xB66, 0xBE6, 0xC66, 0xCE6, 0xD66,
  0xDE6, 0xE50, 0xED0, 0xF20, 0x1040, 0x1090, 0x17E0, 0x1810, 0x1946, 0x19D0, 0x1A80, 0x1A90,
  0x1B50, 0x1BB0, 0x1C40, 0x1C50, 0xA620, 0xA8D0, 0xA900, 0xA9D0, 0xA9F0, 0xAA50, 0xABF0,
  0xFF10, 0x104A0, 0x10D30, 0x11066, 0x110F0, 0x11136, 0x111D0, 0x112F0, 0x11450, 0x114D0,
  0x11650, 0x116C0, 0x11730, 0x118E0, 0x11950, 0x11C50, 0x11D50, 0x11DA0, 0x16A60, 0x16AC0,
  0x16B50, 0x1D7CE, 0x1D7D8, 0x1D7E2, 0x1D7EC, 0x1D7F6, 0x1E140, 0x1E2F0, 0x1E950, 0x1FBF0]

def digit? (c : Char) : Option Nat :=
  zeros.findSome? fun first =>
    if first ≤ c.toNat ∧ c.toNat < first + 10 then some (c.toNat - first) else none

/-- The digits of a numeral; `afterDigit` says whether an underscore, or the
end, may come next. -/
def digits? (afterDigit : Bool) : List Char → Option (List Nat)
  | [] => if afterDigit then some [] else none
  | '_' :: rest => if afterDigit then digits? false rest else none
  | c :: rest =>
    match digit? c with
    | some d => (digits? true rest).map (d :: ·)
    | none => none

def value (digits : List Nat) : Nat :=
  digits.foldl (fun n d => 10 * n + d) 0

/-- The most digits a numeral may have, leading zeros counted. -/
def limit : Nat := 4300

def readNat? (cs : List Char) : Option Nat :=
  match digits? false cs with
  | some ds => if ds.length ≤ limit then some (value ds) else none
  | none => none

def readInt? : List Char → Option Int
  | '-' :: rest => (readNat? rest).map fun n => -(n : Int)
  | '+' :: rest => (readNat? rest).map fun n => (n : Int)
  | cs => (readNat? cs).map fun n => (n : Int)

end CommandTrace.Numeral
