/-
Blank characters, and taking them off the ends of a line.
-/
import CommandTrace.Text

namespace CommandTrace

/-- White space: the separators of Unicode and the controls that divide text. -/
def isBlank (c : Char) : Bool :=
  let n := c.toNat
  (0x09 ≤ n && n ≤ 0x0D) || (0x1C ≤ n && n ≤ 0x20) || n == 0x85 || n == 0xA0 || n == 0x1680 ||
    (0x2000 ≤ n && n ≤ 0x200A) || n == 0x2028 || n == 0x2029 || n == 0x202F || n == 0x205F ||
    n == 0x3000

def trimLeft (cs : List Char) : List Char :=
  cs.dropWhile isBlank

def trimRight (cs : List Char) : List Char :=
  (cs.reverse.dropWhile isBlank).reverse

/-- The characters between the first and the last that are not blank. -/
def trim (cs : List Char) : List Char :=
  trimRight (trimLeft cs)

def strip (s : String) : String :=
  String.ofList (trim s.toList)

def CodePoint.isBlank (p : CodePoint) : Bool :=
  p.toChar?.any CommandTrace.isBlank

/-- The text between the first and the last code point that is not blank. -/
def Text.strip (t : Text) : Text :=
  ((t.dropWhile CodePoint.isBlank).reverse.dropWhile CodePoint.isBlank).reverse

end CommandTrace
