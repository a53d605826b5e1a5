/-
The rows of the report.

Pending records give no rows. A literal with alternatives gives one row for
each; decorations of database names are taken off, and what is empty then is
left out. A row stands where it occurs first.
-/
import CommandTrace.Event
import CommandTrace.Record
import CommandTrace.Resolution

namespace CommandTrace

structure Row where
  file : Path
  line : Int
  text : Text
  isVariable : Bool
  error : String := ""
deriving DecidableEq, Repr

/-- The cells of a row: file, line, command text, whether it is a variable,
and error. -/
def Row.cells (r : Row) : List Text :=
  [.ofString r.file.toString, .ofString (toString r.line), r.text,
    .ofString (if r.isVariable then "True" else "False"), .ofString r.error]

namespace Report

/-- Brackets and the usual schema. -/
def defaultTokens : List Text := ["[", "]", "dbo."].map Text.ofString

/-- The text with each token taken out, one token after the other. -/
def clean (tokens : List Text) (text : Text) : Text :=
  tokens.foldl (fun text token => Text.removeAll token text) text

/-- The texts that a record without an error stands for. The text of an
expression is one, whatever it contains. -/
def alternatives (r : Record) : List Text :=
  if r.isVariable then [r.text] else fields alternativeMark r.text

def rowsOf (tokens : List Text) (r : Record) : List Row :=
  if r.isError then [⟨r.file, r.line, [], r.isVariable, r.error⟩]
  else
    ((((alternatives r).filter fun text => !(Text.ofString pendingMark).isPrefixOf text).map
      (clean tokens)).filter (· ≠ [])).map fun text => ⟨r.file, r.line, text, r.isVariable, r.error⟩

/-- A report in the making: the records that were taken up, their rows, and how
many records were dropped. -/
structure Draft where
  taken : List Record := []
  rows : List Row := []
  dropped : Nat := 0

/-- The draft with a record more. A pending one is dropped, and one that was taken
up before is passed over. -/
def Draft.add (tokens : List Text) (d : Draft) (r : Record) : Draft :=
  if r.isPending then { d with dropped := d.dropped + 1 }
  else if r ∈ d.taken then d
  else { d with taken := r :: d.taken, rows := union d.rows (rowsOf tokens r) }

def draft (tokens : List Text) (records : List Record) : Draft :=
  records.foldl (Draft.add tokens) {}

/-- The rows for the records. -/
def rows (tokens : List Text) (records : List Record) : List Row :=
  (draft tokens records).rows

/-- What is reported about making the rows. -/
def event (tokens : List Text) (records : List Record) : Event :=
  let d := draft tokens records
  .recordsAggregated d.rows.length d.dropped

end Report

end CommandTrace
