/-
Decoding as cutting bytes into pieces.

A decoder looks at the first byte and what follows it and says how many bytes
belong together and which character they spell, or why they spell none.
Reading strictly and reading with replacement are two views of the same
pieces: `strict` stops at the first faulty piece, `lossy` puts one replacement
character for each.
-/

namespace CommandTrace

namespace Encoding

/-- Why bytes spell no character. -/
inductive Reason where
  | invalidStart
  | invalidContinuation
  | unexpectedEnd
  | truncated
  | illegalEncoding
  | illegalSurrogate
  | undefined
  | notAscii
deriving DecidableEq, Repr

def Reason.message : Reason → String
  | invalidStart => "invalid start byte"
  | invalidContinuation => "invalid continuation byte"
  | unexpectedEnd => "unexpected end of data"
  | truncated => "truncated data"
  | illegalEncoding => "illegal encoding"
  | illegalSurrogate => "illegal UTF-16 surrogate"
  | undefined => "character maps to <undefined>"
  | notAscii => "ordinal not in range(128)"

/-- Bytes that belong together: their number, and the character they spell. -/
structure Piece where
  size : Nat
  result : Except Reason Char

/-- The piece that a byte and the bytes after it start with. -/
abbrev Cut := UInt8 → List UInt8 → Piece

/-- The bytes cut into pieces. A piece takes at least its first byte. -/
def pieces (cut : Cut) : List UInt8 → List Piece
  | [] => []
  | b :: rest =>
    let piece := cut b rest
    piece :: pieces cut (rest.drop (piece.size - 1))
termination_by bytes => bytes.length
decreasing_by simp only [List.length_drop, List.length_cons]; omega

/-- Stands for the bytes of a faulty piece. -/
def replacement : Char := '�'

def Piece.char (piece : Piece) : Char :=
  match piece.result with
  | .ok c => c
  | .error _ => replacement

def lossy (ps : List Piece) : List Char :=
  ps.map Piece.char

/-- The first faulty piece: where it starts, its size, and why it is faulty. -/
structure Flaw where
  position : Nat
  size : Nat
  reason : Reason
deriving DecidableEq, Repr

/-- The characters of the pieces, the first of which starts at `position`. -/
def strict (position : Nat) : List Piece → Except Flaw (List Char)
  | [] => .ok []
  | piece :: rest =>
    match piece.result with
    | .ok c => (strict (position + piece.size) rest).map (c :: ·)
    | .error reason => .error ⟨position, piece.size, reason⟩

end Encoding

end CommandTrace
