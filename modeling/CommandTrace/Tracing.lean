/-
Tracing a name back to the literals it may hold.

The walk goes outward from the place where the name is used. A block gives
every value assigned to the name anywhere in it, since control flow is not
followed; a type or a field gives the literal a field of that name starts
with; a method that has the name as a parameter ends the walk with a reference
to its calls. A value that is itself a name is traced in the same way from the
block it was found in.

A name is not followed again while it is being traced. `fresh` holds the names
that may still be followed; each step inward takes one away, so tracing ends
however the assignments refer to each other.
-/
import CommandTrace.Logged
import CommandTrace.Resolution
import CommandTrace.Syntax.Declaration
import CommandTrace.Syntax.Literal
import CommandTrace.Syntax.Namespace

namespace CommandTrace

/-- The part of a name after a leading `this.`. -/
def withoutThis (name : String) : String :=
  if "this.".toList.isPrefixOf name.toList then String.ofList (name.toList.drop 5) else name

theorem withoutThis_this (name : String) : withoutThis ("this." ++ name) = name := by
  have hlead : "this.".toList <+: ("this." ++ name).toList := by
    rw [String.toList_append]
    exact List.prefix_append _ _
  rw [withoutThis, if_pos (List.isPrefixOf_iff_prefix.2 hlead), String.toList_append]
  exact String.ofList_toList

theorem withoutThis_of_not_this {name : String} (h : ¬"this.".toList <+: name.toList) : withoutThis name = name :=
  if_neg fun hlead => h (List.isPrefixOf_iff_prefix.1 hlead)

namespace SyntaxTree

variable (t : SyntaxTree)

/-! ## What one scope says of a name -/

/-- The expression that a declarator or an assignment gives to a name. -/
def givenValue (name : String) (i : Nat) : Option Nat :=
  if t.kind i = .declarator then
    if t.declaratorName i = some name then t.declaratorValue i else none
  else if t.isSimpleAssignment i then
    match t.childByField i "left" with
    | some left => if t.text left = name then t.childByField i "right" else none
    | none => none
  else none

/-- The expressions given to a name in a block, in document order. -/
def givenValues (name : String) (block : Nat) : List Nat :=
  (t.descendants block).filterMap (t.givenValue name)

/-- The literals that the declarators of a field start a name with. -/
def fieldLiterals (name : String) (field : Nat) : List Nat :=
  ((t.declarators field).filter fun d => t.declaratorName d = some (withoutThis name)).filterMap fun d =>
    (t.declaratorValue d).filter fun v => t.kind v = .literal

/-- The first literal a field gives to a name. -/
def fieldValue (name : String) (field : Nat) : Except Fault (Option Text) :=
  match t.fieldLiterals name field with
  | [] => .ok none
  | v :: _ => some <$> t.literalValue v

/-- The first literal that a field of a type gives to a name. -/
def typeFieldValue (name : String) (declaration : Nat) : Except Fault (Option Text) :=
  let body := (t.childByField declaration "body").getD declaration
  let members := (t.children body).filter fun c => t.kind c = .fieldDecl
  match members.flatMap (t.fieldLiterals name) with
  | [] => .ok none
  | v :: _ => some <$> t.literalValue v

/-- The position of a method's first parameter of a name. -/
def parameterIndex (name : String) (method : Nat) : Option Nat :=
  (t.parameters method).findIdx? fun p => t.parameterName p = some name

/-- The reference to the calls that decide a parameter of a method. -/
def parameterReference (method index : Nat) : Except Fault Reference := do
  let typeNames ← t.enclosingTypeNames method
  return ⟨typeNames, t.methodName method, index, t.enclosingNamespace method⟩

/-! ## The walk -/

/-- Adds what one expression given to a name contributes: a literal, or what
the name it copies is traced to. `follow` traces a name, unless that is not to
be followed. -/
def collect (follow : String → Logged (Option Resolution)) (found : Resolution) (value : Nat) :
    Logged Resolution :=
  match t.kind value with
  | .literal => do
    let text ← t.literalValue value
    return if text = [] then found else found.addValue text
  | .identifier | .memberAccess => do
    let name := t.text value
    match ← follow name with
    | none => return found
    | some inner =>
      let merged := found.merge inner
      return if inner.isEmpty then merged.addUnresolved name else merged
  | _ => pure found

/-- What a block gives to a name. -/
def searchBlock (follow : String → Nat → Logged (Option Resolution)) (name : String) (block : Nat) :
    Logged Resolution :=
  (t.givenValues name block).foldlM (t.collect fun copied => follow copied block) {}

/-- Looks for a name in one scope after another until one of them resolves it.
Names that led nowhere are carried along to the end. -/
def walk (follow : String → Nat → Logged (Option Resolution)) (name : String) (carried : Resolution) :
    List Nat → Logged Resolution
  | [] => pure carried
  | scope :: rest =>
    match t.kind scope with
    | .block => do
      let found ← t.searchBlock follow name scope
      if found.isResolved then return found
      walk follow name (carried.merge found) rest
    | .typeDecl => do
      match ← t.typeFieldValue name scope with
      | none | some [] => walk follow name carried rest
      | some value => return { values := [value] }
    | .fieldDecl => do
      match ← t.fieldValue name scope with
      | none | some [] => walk follow name carried rest
      | some value => return { values := [value] }
    | .methodDecl =>
      match t.parameterIndex name scope with
      | none => walk follow name carried rest
      | some index => do
        let reference ← t.parameterReference scope index
        Logged.report (.parameterFound name reference)
        return { pending := [reference] }
    | _ => walk follow name carried rest

/-- Traces a name from a place in the file, following the names in `fresh`
only. -/
def traceWith (fresh : List String) (name : String) (start : Nat) : Logged Resolution :=
  t.walk (fun copied block =>
      if copied ∈ fresh then some <$> traceWith (without fresh copied) copied block
      else pure none)
    name {} (t.scopes start)
termination_by fresh.length
decreasing_by exact length_without_lt ‹_›

/-- The texts of the names that a value can be copied from. -/
def copyableNames : List String :=
  distinct (((t.subtree root).filter fun i =>
    t.kind i = .identifier ∨ t.kind i = .memberAccess).map t.text)

/-- Traces a name from a place in the file. -/
def trace (name : String) (start : Nat) : Logged Resolution :=
  t.traceWith (without t.copyableNames name) name start

end SyntaxTree

end CommandTrace
