/-
Surrogates, the code points that no encoding of text can write.

A text without them is a string. One with them is refused, and the refusal
names the first row of surrogates in it.
-/
import CommandTrace.Text
import CommandTrace.Text.Quoted

namespace CommandTrace

/-- Why a text cannot be written. -/
structure EncodeError where
  /-- Where in the text the first surrogate is. -/
  position : Nat
  /-- How many surrogates stand there in a row. -/
  size : Nat
  /-- The first of them. -/
  point : CodePoint
deriving DecidableEq, Repr

def EncodeError.message (e : EncodeError) : String :=
  let what :=
    if e.size = 1 then
      "character '\\u" ++ hexadecimal 4 e.point.value ++ "' in position " ++ toString e.position
    else
      "characters in position " ++ toString e.position ++ "-" ++ toString (e.position + e.size - 1)
  "'utf-8' codec can't encode " ++ what ++ ": surrogates not allowed"

/-- The string of a text, or its first surrogates. -/
def Text.encode (t : Text) : Except EncodeError String :=
  match t.toString? with
  | some s => .ok s
  | none =>
    let before := t.takeWhile (!·.isSurrogate)
    let row := (t.drop before.length).takeWhile (·.isSurrogate)
    .error ⟨before.length, row.length, row.headD (.ofChar ' ')⟩

end CommandTrace
