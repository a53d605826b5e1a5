/-
The encodings a file may be in, their names, and reading a file's bytes.

`decode?` reads strictly and reports the first fault; `decode` reads with
replacement. A byte order mark that the encoding itself defines is not part of
the text.
-/
import CommandTrace.Encoding.Piece
import CommandTrace.Encoding.Utf8
import CommandTrace.Encoding.Utf16
import CommandTrace.Encoding.CodePage
import CommandTrace.Text.Quoted

namespace CommandTrace

/-- An encoding of text. `signedUtf8` is UTF-8 with an optional mark; `utf16`
without an order takes it from the mark and is little-endian without one. -/
inductive Encoding where
  | utf8
  | signedUtf8
  | ascii
  | latin1
  | latin9
  | windows1252
  | utf16 (order : Option Encoding.ByteOrder)
deriving DecidableEq, Repr

/-- A strict reading that failed. -/
structure DecodeError where
  codec : String
  flaw : Encoding.Flaw
  /-- The first byte of the faulty piece. -/
  byte : UInt8
deriving DecidableEq, Repr

def DecodeError.message (e : DecodeError) : String :=
  let first := toString e.flaw.position
  let what :=
    if e.flaw.size == 1 then "byte 0x" ++ hexadecimal 2 e.byte.toNat ++ " in position " ++ first
    else "bytes in position " ++ first ++ "-" ++ toString (e.flaw.position + e.flaw.size - 1)
  "'" ++ e.codec ++ "' codec can't decode " ++ what ++ ": " ++ e.flaw.reason.message

namespace Encoding

def isNameChar (c : Char) : Bool :=
  c.isAlphanum || c = '.'

/-- The letters of a name, small, with `_` for whatever stands between two of
them; `gap` says whether something stands before the first. -/
def plainLetters (gap : Bool) : List Char → List Char
  | [] => []
  | c :: rest =>
    if isNameChar c then
      if gap then '_' :: c.toLower :: plainLetters false rest
      else c.toLower :: plainLetters false rest
    else plainLetters true rest

/-- A name as it is compared: neither case nor the signs between its parts
matter. -/
def plainName (name : String) : String :=
  String.ofList (plainLetters false (name.toList.dropWhile (!isNameChar ·)))

/-- The encoding that has this as its own name. -/
def ofOwnName? (name : String) : Option Encoding :=
  match name with
  | "utf_8" => some .utf8
  | "utf_8_sig" => some .signedUtf8
  | "ascii" => some .ascii
  | "latin_1" => some .latin1
  | "iso8859_15" => some .latin9
  | "cp1252" => some .windows1252
  | "utf_16" => some (.utf16 none)
  | "utf_16_le" => some (.utf16 (some .little))
  | "utf_16_be" => some (.utf16 (some .big))
  | _ => none

/-- The encoding that has this as another name. -/
def ofOtherName? (name : String) : Option Encoding :=
  match name with
  | "utf8" | "utf" | "u8" | "utf8_ucs2" | "utf8_ucs4" | "cp65001" => some .utf8
  | "us_ascii" | "us" | "646" | "iso646_us" | "iso_646.irv_1991" | "iso_ir_6" | "cp367" | "ibm367"
  | "csascii" | "ansi_x3.4_1968" | "ansi_x3_4_1968" | "ansi_x3.4_1986" => some .ascii
  | "latin1" | "latin" | "l1" | "iso_8859_1" | "iso8859_1" | "iso8859" | "8859" | "iso_8859_1_1987"
  | "iso_ir_100" | "cp819" | "ibm819" | "csisolatin1" => some .latin1
  | "iso_8859_15" | "latin9" | "l9" => some .latin9
  | "windows_1252" | "1252" => some .windows1252
  | "utf16" | "u16" => some (.utf16 none)
  | "utf_16le" | "unicodelittleunmarked" => some (.utf16 (some .little))
  | "utf_16be" | "unicodebigunmarked" => some (.utf16 (some .big))
  | _ => none

/-- The encoding of a name. In all names but an encoding's own a point may
stand for `_`. -/
def ofName? (name : String) : Option Encoding :=
  let plain := plainName name
  ofOtherName? plain <|>
    ofOtherName? (plain.map fun c => if c = '.' then '_' else c) <|> ofOwnName? plain

/-- How a text is cut, its bytes without the mark, and the position at which
positions are counted to start. -/
structure Reading where
  codec : String
  cut : Cut
  bytes : List UInt8
  position : Nat

def utf16Reading (order : ByteOrder) (bytes : List UInt8) (position : Nat) : Reading :=
  match order with
  | .little => ⟨"utf-16-le", Utf16.cut .little, bytes, position⟩
  | .big => ⟨"utf-16-be", Utf16.cut .big, bytes, position⟩

/-- The order a mark at the start of the bytes gives. -/
def markedOrder? (bytes : List UInt8) : Option ByteOrder :=
  if (Utf16.mark .little).isPrefixOf bytes then some .little
  else if (Utf16.mark .big).isPrefixOf bytes then some .big
  else none

def reading (encoding : Encoding) (bytes : List UInt8) : Reading :=
  match encoding with
  | .utf8 => ⟨"utf-8", Utf8.cut, bytes, 0⟩
  | .signedUtf8 =>
    ⟨"utf-8", Utf8.cut, if Utf8.mark.isPrefixOf bytes then bytes.drop 3 else bytes, 0⟩
  | .ascii => ⟨"ascii", CodePage.ascii, bytes, 0⟩
  | .latin1 => ⟨"latin-1", CodePage.latin1, bytes, 0⟩
  | .latin9 => ⟨"charmap", CodePage.latin9, bytes, 0⟩
  | .windows1252 => ⟨"charmap", CodePage.windows1252, bytes, 0⟩
  | .utf16 (some order) => utf16Reading order bytes 0
  | .utf16 none =>
    match markedOrder? bytes with
    | some order => utf16Reading order (bytes.drop 2) 2
    | none => utf16Reading .little bytes 0

namespace Reading

def decode (r : Reading) : List Char :=
  lossy (pieces r.cut r.bytes)

def decode? (r : Reading) : Except DecodeError (List Char) :=
  match strict r.position (pieces r.cut r.bytes) with
  | .ok cs => .ok cs
  | .error flaw => .error ⟨r.codec, flaw, r.bytes.getD (flaw.position - r.position) 0⟩

end Reading

/-- The text, with one replacement for each faulty piece. -/
def decode (encoding : Encoding) (bytes : List UInt8) : List Char :=
  (reading encoding bytes).decode

/-- The text, or the first fault. -/
def decode? (encoding : Encoding) (bytes : List UInt8) : Except DecodeError (List Char) :=
  (reading encoding bytes).decode?

end Encoding

end CommandTrace
