/-
UTF-16 in either byte order, one piece at a time.
-/
import CommandTrace.Encoding.Piece

namespace CommandTrace.Encoding

inductive ByteOrder where
  | little
  | big
deriving DecidableEq, Repr

namespace Utf16

/-- The code unit of two bytes in the order they stand in. -/
def unit (order : ByteOrder) (a b : UInt8) : Nat :=
  match order with
  | .little => a.toNat + 256 * b.toNat
  | .big => 256 * a.toNat + b.toNat

def isHigh (u : Nat) : Bool :=
  0xD800 ≤ u && u < 0xDC00

def isLow (u : Nat) : Bool :=
  0xDC00 ≤ u && u < 0xE000

/-- A high surrogate with no whole unit after it takes all that is left; one
with a unit after it that is not low stands alone. -/
def cut (order : ByteOrder) : Cut
  | _, [] => ⟨1, .error .truncated⟩
  | a, b :: rest =>
    let u := unit order a b
    if isLow u then ⟨2, .error .illegalEncoding⟩
    else if isHigh u then
      match rest with
      | c :: d :: _ =>
        let v := unit order c d
        if isLow v then ⟨4, .ok (Char.ofNat (0x10000 + (u - 0xD800) * 0x400 + (v - 0xDC00)))⟩
        else ⟨2, .error .illegalSurrogate⟩
      | _ => ⟨2 + rest.length, .error .unexpectedEnd⟩
    else ⟨2, .ok (Char.ofNat u)⟩

/-- The code units of a character. -/
def units (c : Char) : List Nat :=
  if c.toNat < 0x10000 then [c.toNat]
  else [0xD800 + (c.toNat - 0x10000) / 0x400, 0xDC00 + (c.toNat - 0x10000) % 0x400]

def bytesOf (order : ByteOrder) (u : Nat) : List UInt8 :=
  match order with
  | .little => [UInt8.ofNat (u % 256), UInt8.ofNat (u / 256)]
  | .big => [UInt8.ofNat (u / 256), UInt8.ofNat (u % 256)]

def encode (order : ByteOrder) (cs : List Char) : List UInt8 :=
  cs.flatMap fun c => (units c).flatMap (bytesOf order)

/-- The byte order mark. -/
def mark (order : ByteOrder) : List UInt8 :=
  bytesOf order 0xFEFF

end Utf16

end CommandTrace.Encoding
