/-
Files read as text, strictly.

Line ends of all kinds become line feeds. What cannot be read stops the
reading: no part of a file counts without the rest.
-/
import CommandTrace.Text.Line
import CommandTrace.Workspace

namespace CommandTrace

/-- The text of a file. A part of a UTF-8 mark alone is no text, and a UTF-16
file has to say its byte order. -/
def Encoding.decodeFile (encoding : Encoding) (bytes : List UInt8) : Except Fault (List Char) :=
  match encoding with
  | .signedUtf8 =>
    if bytes.length < 3 ∧ bytes.isPrefixOf Encoding.Utf8.mark then .ok []
    else (encoding.decode? bytes).mapError Fault.undecodable
  | .utf16 none => do
    let cs ← (encoding.decode? bytes).mapError Fault.undecodable
    if bytes ≠ [] ∧ (Encoding.markedOrder? bytes).isNone then .error .noByteOrder
    return cs
  | _ => (encoding.decode? bytes).mapError Fault.undecodable

/-- The encoding that a file is said to be in; `locale` is the usual one. -/
def Encoding.ofFileEncoding? (name : String) : Option Encoding :=
  if name = "locale" then some .utf8 else ofName? name

/-- The text of the file at a path. -/
def Item.readText (root : Item) (path : Path) (encoding : String) : Except Fault (List Char) := do
  if encoding.toList.contains '\x00' then .error .zeroInEncoding
  let file ← root.readFile path
  match Encoding.ofFileEncoding? encoding with
  | none => .error (.unknownEncoding encoding)
  | some e => return Line.unify (← e.decodeFile file.bytes)

end CommandTrace
