/-
UTF-8, one piece at a time.

The bytes of a faulty piece are the longest start of a character that the
input holds there: a piece ends before the first byte that cannot continue it,
so the byte after it is looked at afresh.
-/
import CommandTrace.Encoding.Piece

namespace CommandTrace.Encoding.Utf8

/-- What the first byte of a character of several bytes says: how many follow,
the bits it carries, and the range of the byte that comes next. -/
structure Lead where
  following : Nat
  bits : Nat
  low : UInt8
  high : UInt8

/-- Overlong forms, surrogates and values past the last code point are shut out
by narrowing the range of the second byte. -/
def lead? (b : UInt8) : Option Lead :=
  if b < 0xC2 then none
  else if b < 0xE0 then some ⟨1, b.toNat - 0xC0, 0x80, 0xBF⟩
  else if b == 0xE0 then some ⟨2, 0, 0xA0, 0xBF⟩
  else if b == 0xED then some ⟨2, 0xD, 0x80, 0x9F⟩
  else if b < 0xF0 then some ⟨2, b.toNat - 0xE0, 0x80, 0xBF⟩
  else if b == 0xF0 then some ⟨3, 0, 0x90, 0xBF⟩
  else if b < 0xF4 then some ⟨3, b.toNat - 0xF0, 0x80, 0xBF⟩
  else if b == 0xF4 then some ⟨3, 4, 0x80, 0x8F⟩
  else none

/-- The rest of a character: `following` bytes are still to come, the first of
them between `low` and `high`; `size` bytes have been taken. -/
def tail (bits size : Nat) (low high : UInt8) : Nat → List UInt8 → Piece
  | 0, _ => ⟨size, .ok (Char.ofNat bits)⟩
  | _ + 1, [] => ⟨size, .error .unexpectedEnd⟩
  | following + 1, b :: rest =>
    if low ≤ b ∧ b ≤ high then
      tail (bits * 64 + (b.toNat - 0x80)) (size + 1) 0x80 0xBF following rest
    else
      ⟨size, .error .invalidContinuation⟩

def cut : Cut := fun b rest =>
  if b < 0x80 then ⟨1, .ok (Char.ofNat b.toNat)⟩
  else
    match lead? b with
    | none => ⟨1, .error .invalidStart⟩
    | some lead => tail lead.bits 1 lead.low lead.high lead.following rest

/-- The characters, with one replacement for each faulty piece. -/
def decode (bytes : List UInt8) : List Char :=
  lossy (pieces cut bytes)

def encode (cs : List Char) : List UInt8 :=
  cs.flatMap String.utf8EncodeChar

/-- The byte order mark. -/
def mark : List UInt8 := [0xEF, 0xBB, 0xBF]

end CommandTrace.Encoding.Utf8
