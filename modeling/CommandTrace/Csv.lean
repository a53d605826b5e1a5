/-
The report as a file of comma-separated values.

A cell is quoted only if it has to be, quotes in it are doubled, and a line
feed ends each line. A text with a surrogate cannot be written in UTF-8:
writing stops at its line, with the lines before it written.
-/
import CommandTrace.Encoding.Surrogate
import CommandTrace.Report

namespace CommandTrace

namespace Csv

def comma : CodePoint := .ofChar ','

def quote : CodePoint := .ofChar '"'

def lineFeed : CodePoint := .ofChar '\n'

def needsQuotes (cell : Text) : Bool :=
  cell.any fun p => p = comma || p = quote || p = lineFeed

def cell (text : Text) : Text :=
  if needsQuotes text then
    quote :: text.flatMap (fun p => if p = quote then [quote, quote] else [p]) ++ [quote]
  else text

/-- One line, with its end. -/
def line (cells : List Text) : Text :=
  Text.joinWith comma (cells.map cell) ++ [lineFeed]

def header : List String :=
  ["File", "LineNumber", "CommandText", "IsVariable", "ErrorMsg"]

/-- The lines of the file. -/
def lines (rows : List Row) : List Text :=
  line (header.map Text.ofString) :: rows.map fun r => line r.cells

/-- The whole file. -/
def document (rows : List Row) : Text :=
  (lines rows).flatten

/-- What gets written: a text with so many rows in it, and why there are no more
if that is not all. -/
structure Written where
  text : String
  count : Nat := 0
  error : Option EncodeError := none

/-- Writes rows after what is written, up to the first that cannot be. -/
def writeRows (written : Written) : List Row → Written
  | [] => written
  | row :: rest =>
    match (line row.cells).encode with
    | .ok s => writeRows { written with text := written.text ++ s, count := written.count + 1 } rest
    | .error error => { written with error := some error }

/-- Writes the header, which has no surrogates, and then the rows. -/
def write (rows : List Row) : Written :=
  writeRows { text := (line (header.map Text.ofString)).shown } rows

end Csv

end CommandTrace
