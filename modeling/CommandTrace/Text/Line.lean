/-
Lines of a text, and the parts of a line between separators.
-/

namespace CommandTrace

/-- Characters that end a line. A carriage return with the line feed after it
ends one line, not two. -/
def endsLine (c : Char) : Bool :=
  let n := c.toNat
  (0x0A ≤ n && n ≤ 0x0D) || (0x1C ≤ n && n ≤ 0x1E) || n == 0x85 || n == 0x2028 || n == 0x2029

namespace Line

/-- The lines of the text that starts inside a line, whose characters so far
are in `line`, last first. -/
def splitFrom (line : List Char) : List Char → List (List Char)
  | [] => if line.isEmpty then [] else [line.reverse]
  | '\r' :: '\n' :: rest => line.reverse :: splitFrom [] rest
  | c :: rest =>
    if endsLine c then line.reverse :: splitFrom [] rest else splitFrom (c :: line) rest

/-- The lines of a text, without their ends. The end of the text ends its last
line, so a text that stops at a line end has no empty line after it. -/
def split (cs : List Char) : List (List Char) :=
  splitFrom [] cs

/-- The text with each line end of the two-character kind, and each lone
carriage return, written as a line feed. -/
def unify : List Char → List Char
  | [] => []
  | '\r' :: '\n' :: rest => '\n' :: unify rest
  | '\r' :: rest => '\n' :: unify rest
  | c :: rest => c :: unify rest

end Line

/-- The parts of a list, a line or a text, between occurrences of `sep`. -/
def fields {α : Type} [DecidableEq α] (sep : α) : List α → List (List α)
  | [] => [[]]
  | c :: rest =>
    match fields sep rest with
    | [] => [[c]]
    | part :: parts => if c = sep then [] :: part :: parts else (c :: part) :: parts

/-- What stands before and after the last occurrence of `sep`, if there is one. -/
def splitLast? (sep : Char) : List Char → Option (List Char × List Char)
  | [] => none
  | c :: rest =>
    match splitLast? sep rest with
    | some (before, after) => some (c :: before, after)
    | none => if c = sep then some ([], rest) else none

/-- The strings one after another with `sep` between them. -/
def joinWith (sep : String) : List String → String
  | [] => ""
  | [s] => s
  | s :: t :: rest => s ++ sep ++ joinWith sep (t :: rest)

end CommandTrace
