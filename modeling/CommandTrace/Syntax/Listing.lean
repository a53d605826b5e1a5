/-
Parse trees written as text: a line for each node in pre-order, with its depth,
type, field, start, end and whether it is named, between blanks. A dash stands
for no field. A first line `error` says that the parse has errors.
-/
import CommandTrace.Syntax.ParseTree
import CommandTrace.Text.Blank
import CommandTrace.Text.Line
import CommandTrace.Text.Numeral
import CommandTrace.Workspace

namespace CommandTrace.Listing

/-- The parts of a line between blanks. -/
def blankFields (s : String) : List String :=
  ((fields ' ' (trim s.toList)).map String.ofList).filter (· ≠ "")

def natural? (s : String) : Option Nat :=
  Numeral.readNat? s.toList

def row? (line : String) : Option (Nat × Label) :=
  match blankFields line with
  | [depth, type, field, start, stop, named] => do
    let label : Label := {
      type
      field := if field = "-" then none else some field
      start := ← natural? start
      stop := ← natural? stop
      named := named = "1" }
    return (← natural? depth, label)
  | _ => none

/-- The parse that the lines spell. -/
def parse? (lines : List String) : Option Parse :=
  let lines := lines.filter fun line => strip line ≠ ""
  let (hasError, rows) := match lines with
    | first :: rest => if strip first = "error" then (true, rest) else (false, lines)
    | [] => (false, [])
  do
    let rows ← rows.mapM row?
    let tree ← ParseTree.ofRows? rows
    return { tree, hasError }

end CommandTrace.Listing
