/-
Records: command texts found at call sites.
-/
import CommandTrace.Path
import CommandTrace.Reference
import CommandTrace.Text

namespace CommandTrace

/-- A command text found at a call. The text is a literal, or several with `|`
between them; with `isVariable` it is the source text of an expression that
could not be traced. A pending record stands for the calls of a method, and
one with an error for a file that could not be analysed. -/
structure Record where
  file : Path
  line : Int
  text : Text
  isVariable : Bool := false
  error : String := ""
  pending : Option Reference := none
deriving DecidableEq, Repr

namespace Record

def isPending (r : Record) : Bool :=
  r.pending.isSome

def isError (r : Record) : Bool :=
  r.error ≠ ""

/-- The record with a value found elsewhere. -/
def resolved (r : Record) (value : Text) : Record :=
  { r with text := value, isVariable := false }

/-- Not traced, and to be looked up elsewhere. -/
def isOpen (r : Record) : Bool :=
  r.isVariable && !r.isPending

end Record

end CommandTrace
