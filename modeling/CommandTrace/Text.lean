/-
Texts as sequences of code points.

A literal of the scanned language may spell a lone surrogate, and so may a
setting given as JSON; no `String` can hold one. So what literals and settings
denote, and everything made from it, is a `Text`; names, paths and messages,
which only ever come from decoded source, stay `String`s. `Text.toString?` is
the way back, defined exactly on the texts without surrogates.
-/

namespace CommandTrace

/-- A Unicode code point, surrogates included. -/
structure CodePoint where
  value : Nat
  isLt : value < 0x110000
deriving DecidableEq, Repr

namespace CodePoint

def isSurrogate (p : CodePoint) : Bool :=
  0xD800 ≤ p.value && p.value < 0xE000

def ofChar (c : Char) : CodePoint where
  value := c.toNat
  isLt := by
    have h := c.valid
    simp only [UInt32.isValidChar, Nat.isValidChar] at h
    simp only [Char.toNat]
    omega

def toChar? (p : CodePoint) : Option Char :=
  if p.isSurrogate then none else some (Char.ofNat p.value)

end CodePoint

abbrev Text := List CodePoint

namespace Text

def ofChars (cs : List Char) : Text :=
  cs.map CodePoint.ofChar

def ofString (s : String) : Text :=
  ofChars s.toList

/-- The string of the same code points, if none of them is a surrogate. -/
def toString? (t : Text) : Option String :=
  (t.mapM CodePoint.toChar?).map String.ofList

/-- The text with `stand` in the place of each surrogate. -/
def toStringWith (stand : Char) (t : Text) : String :=
  String.ofList (t.map fun p => p.toChar?.getD stand)

/-- The text as it is shown, with a mark for each surrogate. -/
def shown (t : Text) : String :=
  t.toStringWith '\uFFFD'

/-- The text as it is compared with strings that have no zero in them. A text
with a surrogate is none of those, so a zero may stand for it. -/
def comparable (t : Text) : String :=
  t.toStringWith '\x00'

/-- The text with `f` done to each character. -/
def mapChars (f : Char → List Char) (t : Text) : Text :=
  t.flatMap fun p =>
    match p.toChar? with
    | some c => ofChars (f c)
    | none => [p]

/-- The text `t` with every occurrence of `token` taken out, found from the left
without overlap. -/
def removeAll (token : Text) : Text → Text
  | [] => []
  | p :: rest =>
    if token ≠ [] ∧ token.isPrefixOf (p :: rest) then
      removeAll token (rest.drop (token.length - 1))
    else
      p :: removeAll token rest
termination_by t => t.length
decreasing_by all_goals simp only [List.length_drop, List.length_cons]; omega

/-- The texts one after another with `sep` between them. -/
def joinWith (sep : CodePoint) : List Text → Text
  | [] => []
  | [t] => t
  | t :: u :: rest => t ++ sep :: joinWith sep (u :: rest)

end Text

end CommandTrace
