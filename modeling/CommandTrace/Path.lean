/-
File paths in normal form: no empty and no `.` components.

`..` stays, since what it means depends on the files. Paths are ordered by
their components, so the files of a directory stay together.
-/
import CommandTrace.Text
import CommandTrace.Text.Line

namespace CommandTrace

/-- What a path starts at. Exactly two leading slashes are kept apart from
one. -/
inductive Anchor where
  | here
  | slash
  | doubleSlash
deriving DecidableEq, Repr

def Anchor.toString : Anchor → String
  | .here => ""
  | .slash => "/"
  | .doubleSlash => "//"

structure Path where
  anchor : Anchor
  parts : List String
deriving DecidableEq, Repr

namespace Path

/-- The components of a path text that count. -/
def components (s : String) : List String :=
  ((fields '/' s.toList).map String.ofList).filter fun part => part ≠ "" ∧ part ≠ "."

def anchorOf : List Char → Anchor
  | '/' :: '/' :: '/' :: _ => .slash
  | '/' :: '/' :: _ => .doubleSlash
  | '/' :: _ => .slash
  | _ => .here

def ofString (s : String) : Path :=
  ⟨anchorOf s.toList, components s⟩

protected def toString (p : Path) : String :=
  if p.anchor = .here ∧ p.parts = [] then "."
  else p.anchor.toString ++ joinWith "/" p.parts

instance : ToString Path := ⟨Path.toString⟩

def isAbsolute (p : Path) : Bool :=
  p.anchor ≠ .here

/-- Whether the character zero is in a path, so that it can name no file. -/
def hasZero (p : Path) : Bool :=
  p.toString.toList.contains '\x00'

/-- The path one component further down. -/
def child (p : Path) (name : String) : Path :=
  { p with parts := p.parts ++ [name] }

def parent (p : Path) : Path :=
  { p with parts := p.parts.dropLast }

/-- Component by component, each by its characters. -/
def le (p q : Path) : Bool :=
  go (p.anchor.toString :: p.parts) (q.anchor.toString :: q.parts)
where
  go : List String → List String → Bool
    | [], _ => true
    | _ :: _, [] => false
    | a :: as, b :: bs => if a = b then go as bs else a < b

/-! ## Texts of paths

A path that is only named and not opened may have surrogates in it. It is kept
as a text in the same normal form. -/

def slash : CodePoint := .ofChar '/'

def dot : CodePoint := .ofChar '.'

/-- The normal form of the text of a path. -/
def normalText (t : Text) : Text :=
  let anchor := anchorOf (t.toStringWith '\uFFFD').toList
  let parts := (fields slash t).filter fun part => part ≠ [] ∧ part ≠ [dot]
  if anchor = .here ∧ parts = [] then [dot]
  else Text.ofString anchor.toString ++ Text.joinWith slash parts

/-- The text of a path seen from `p`. -/
def joinText (p : Path) (t : Text) : Text :=
  if t.head? = some slash then t
  else normalText (Text.ofString (p.child "").toString ++ t)

end Path

end CommandTrace
