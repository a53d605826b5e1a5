/-
A string as it is shown inside a message: in quotes, on one line, with every
character that cannot be printed written as an escape.
-/
import CommandTrace.Text.Printable

namespace CommandTrace

/-- The number `n` in lower-case hexadecimal, at least `width` digits wide. -/
def hexadecimal (width n : Nat) : String :=
  let digits := Nat.toDigits 16 n
  String.ofList (List.replicate (width - digits.length) '0' ++ digits)

namespace Quoted

/-- The quote to use: double only where that saves escaping single ones. -/
def mark (cs : List Char) : Char :=
  if cs.contains '\'' && !cs.contains '"' then '"' else '\''

def escape (quote c : Char) : String :=
  if c == quote || c == '\\' then String.ofList ['\\', c]
  else if c == '\n' then "\\n"
  else if c == '\r' then "\\r"
  else if c == '\t' then "\\t"
  else if isPrintable c then String.singleton c
  else if c.toNat < 0x100 then "\\x" ++ hexadecimal 2 c.toNat
  else if c.toNat < 0x10000 then "\\u" ++ hexadecimal 4 c.toNat
  else "\\U" ++ hexadecimal 8 c.toNat

end Quoted

def quoted (s : String) : String :=
  let cs := s.toList
  let quote := Quoted.mark cs
  String.join (String.singleton quote :: cs.map (Quoted.escape quote)) ++ String.singleton quote

end CommandTrace
