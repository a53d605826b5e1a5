/-
What a name was traced to: literal values, parameters, and names that could
not be traced further. Each is listed once, in the order found.
-/
import CommandTrace.Distinct
import CommandTrace.Reference
import CommandTrace.Text

namespace CommandTrace

/-- Stands between the alternatives of a value. -/
def alternativeMark : CodePoint := .ofChar '|'

structure Resolution where
  values : List Text := []
  pending : List Reference := []
  /-- Names that the name was copied from and that lead nowhere. -/
  unresolved : List String := []
deriving DecidableEq, Repr

namespace Resolution

def isResolved (r : Resolution) : Bool :=
  !r.values.isEmpty || !r.pending.isEmpty

/-- Whether nothing was found, not even a name. -/
def isEmpty (r : Resolution) : Bool :=
  !r.isResolved && r.unresolved.isEmpty

def text (r : Resolution) : Text :=
  Text.joinWith alternativeMark r.values

def addValue (r : Resolution) (value : Text) : Resolution :=
  { r with values := addNew r.values value }

def addPending (r : Resolution) (reference : Reference) : Resolution :=
  { r with pending := addNew r.pending reference }

def addUnresolved (r : Resolution) (name : String) : Resolution :=
  { r with unresolved := addNew r.unresolved name }

def merge (r r' : Resolution) : Resolution where
  values := union r.values r'.values
  pending := union r.pending r'.pending
  unresolved := union r.unresolved r'.unresolved

end Resolution

end CommandTrace
