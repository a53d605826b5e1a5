/-
From a file to its tree.

A file's bytes are read in the given encoding, unless a byte order mark says
otherwise, and kept as UTF-8 without a mark. Bytes that spell nothing are
replaced, which is reported; the rest of the file is kept.
-/
import CommandTrace.Logged
import CommandTrace.Syntax.Tree
import CommandTrace.Workspace

namespace CommandTrace

namespace Source

/-- The bytes without a UTF-8 mark, and the name of the encoding they are in,
given the one they are said to be in. -/
def unmark (encoding : String) (bytes : List UInt8) : List UInt8 × String :=
  if Encoding.Utf8.mark.isPrefixOf bytes then (bytes.drop 3, "utf-8")
  else if (Encoding.markedOrder? bytes).isSome then (bytes, "utf-16")
  else (bytes, encoding)

/-- The text of a file as UTF-8. No encoding is needed for no bytes. -/
def normalize (path : Path) (encoding : String) (bytes : List UInt8) : Logged (List UInt8) :=
  let (bytes, name) := unmark encoding bytes
  if name.toList.contains '\x00' then Logged.ofExcept (.error .zeroInEncoding)
  else if bytes = [] then pure []
  else
    match Encoding.ofName? name with
    | none => Logged.ofExcept (.error (.unknownEncoding name))
    | some e =>
      match e.decode? bytes with
      | .ok cs => pure (Encoding.Utf8.encode cs)
      | .error error => do
        Logged.report (.bytesReplaced path name error.flaw.position)
        return Encoding.Utf8.encode (e.decode bytes)

/-- The parse of a file for which none is known: a root over the whole of it. -/
def plainParse (size : Nat) : Parse :=
  ⟨.node ⟨"compilation_unit", none, 0, size, true⟩ [], false⟩

end Source

namespace Item

/-- Reads a file and takes its tree. -/
def loadTree (root : Item) (encoding : String) (path : Path) : Logged SyntaxTree := do
  let file ← Logged.ofExcept (root.readFile path)
  let source ← Source.normalize path encoding file.bytes
  let parse := file.parse.getD (Source.plainParse source.length)
  let tree := SyntaxTree.ofParseTree path source.toArray parse.tree parse.hasError
  Logged.report (.parsedFile path tree.size)
  if tree.hasError then Logged.report (.syntaxErrors path)
  return tree

end Item

end CommandTrace
