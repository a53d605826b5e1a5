/-
Encodings of one byte per character.
-/
import CommandTrace.Encoding.Piece

namespace CommandTrace.Encoding.CodePage

/-- The first 128 code points only. -/
def ascii : Cut := fun b _ =>
  ⟨1, if b < 0x80 then .ok (Char.ofNat b.toNat) else .error .notAscii⟩

/-- Each byte is the code point of the same number. -/
def latin1 : Cut := fun b _ =>
  ⟨1, .ok (Char.ofNat b.toNat)⟩

/-- The characters of bytes 0x80 to 0x9F in Windows-1252; zero where there is
none. -/
def windowsSpecials : List Nat := [
  0x20AC, 0, 0x201A, 0x0192, 0x201E, 0x2026, 0x2020, 0x2021, 0x02C6, 0x2030, 0x0160, 0x2039, 0x0152,
  0, 0x017D, 0, 0, 0x2018, 0x2019, 0x201C, 0x201D, 0x2022, 0x2013, 0x2014, 0x02DC, 0x2122, 0x0161,
  0x203A, 0x0153, 0, 0x017E, 0x0178]

def windows1252 : Cut := fun b _ =>
  let n := b.toNat
  if 0x80 ≤ n ∧ n < 0xA0 then
    match windowsSpecials.getD (n - 0x80) 0 with
    | 0 => ⟨1, .error .undefined⟩
    | code => ⟨1, .ok (Char.ofNat code)⟩
  else ⟨1, .ok (Char.ofNat n)⟩

/-- Latin-9: Latin-1 with the euro sign and seven letters put in. -/
def latin9 : Cut := fun b _ =>
  let code :=
    match b.toNat with
    | 0xA4 => 0x20AC
    | 0xA6 => 0x0160
    | 0xA8 => 0x0161
    | 0xB4 => 0x017D
    | 0xB8 => 0x017E
    | 0xBC => 0x0152
    | 0xBD => 0x0153
    | 0xBE => 0x0178
    | n => n
  ⟨1, .ok (Char.ofNat code)⟩

end CommandTrace.Encoding.CodePage
