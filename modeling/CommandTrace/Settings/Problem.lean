/-
What can be wrong with settings.

Each flaw of a value has a code and a message. A check of several values goes
on after the first bad one, so that all flaws are reported at once: `Checked`
is the applicative that collects them.
-/

namespace CommandTrace

inductive Flaw where
  | notString
  | notUnicode
  | notPath
  | notList
  | notInteger
  | unreadableInteger
  | longInteger
  | fraction
  | notFinite
  | below (least : Int)
  | above (most : Int)
  /-- A section that is no set of fields. -/
  | notSection (name : String)
  /-- A section for which variables could not be read. -/
  | unreadSection (message : String)
  | unknownField
deriving DecidableEq, Repr

namespace Flaw

def code : Flaw → String
  | notString => "string_type"
  | notUnicode => "string_unicode"
  | notPath => "path_type"
  | notList => "list_type"
  | notInteger => "int_type"
  | unreadableInteger => "int_parsing"
  | longInteger => "int_parsing_size"
  | fraction => "int_from_float"
  | notFinite => "finite_number"
  | below _ => "greater_than_equal"
  | above _ => "less_than_equal"
  | notSection _ => "model_type"
  | unreadSection _ => "value_error"
  | unknownField => "extra_forbidden"

def message : Flaw → String
  | notString => "Input should be a valid string"
  | notUnicode => "Input should be a valid string, unable to parse raw data as a unicode string"
  | notPath => "Input is not a valid path for <class 'pathlib.Path'>"
  | notList => "Input should be a valid list"
  | notInteger => "Input should be a valid integer"
  | unreadableInteger => "Input should be a valid integer, unable to parse string as an integer"
  | longInteger => "Unable to parse input string as an integer, exceeded maximum size"
  | fraction => "Input should be a valid integer, got a number with a fractional part"
  | notFinite => "Input should be a finite number"
  | below least => "Input should be greater than or equal to " ++ toString least
  | above most => "Input should be less than or equal to " ++ toString most
  | notSection name => "Input should be a valid dictionary or instance of " ++ name
  | unreadSection message => "Value error, " ++ message
  | unknownField => "Extra inputs are not permitted"

end Flaw

/-- A flaw and where it is: the field, and for an item of a list its number. -/
structure Problem where
  place : List String
  flaw : Flaw
deriving DecidableEq, Repr

/-- The problem seen from outside of the section it is in. -/
def Problem.within (name : String) (p : Problem) : Problem :=
  { p with place := name :: p.place }

/-- A value, or all that is wrong with what should give it. -/
inductive Checked (α : Type) where
  | valid (value : α)
  | invalid (problems : List Problem)

namespace Checked

variable {α β : Type}

protected def map (f : α → β) : Checked α → Checked β
  | valid a => valid (f a)
  | invalid problems => invalid problems

protected def seq (f : Checked (α → β)) (x : Unit → Checked α) : Checked β :=
  match f, x () with
  | valid f, valid a => valid (f a)
  | valid _, invalid problems => invalid problems
  | invalid problems, valid _ => invalid problems
  | invalid problems, invalid more => invalid (problems ++ more)

instance : Applicative Checked where
  pure := valid
  map := Checked.map
  seq := Checked.seq

def ofExcept (place : List String) : Except Flaw α → Checked α
  | .ok a => valid a
  | .error flaw => invalid [⟨place, flaw⟩]

/-- What `f` gives for each element; `f` gets the element's number too. -/
def traverse (f : Nat → α → Checked β) (start : Nat) : List α → Checked (List β)
  | [] => pure []
  | a :: rest => List.cons <$> f start a <*> traverse f (start + 1) rest

end Checked

end CommandTrace
