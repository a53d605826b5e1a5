/-
What can go wrong while a file is read or analysed. Each fault is a cause;
`Fault.message` is the one place that words it.
-/
import CommandTrace.Encoding
import CommandTrace.Encoding.Surrogate
import CommandTrace.Path

namespace CommandTrace

/-- Why a path cannot be opened. -/
inductive FileError where
  | notFound (path : Path)
  | isDirectory (path : Path)
  | notDirectory (path : Path)
  | nameTooLong (path : Path)
deriving DecidableEq, Repr

def FileError.message : FileError → String
  | notFound path => "[Errno 2] No such file or directory: " ++ quoted path.toString
  | isDirectory path => "[Errno 21] Is a directory: " ++ quoted path.toString
  | notDirectory path => "[Errno 20] Not a directory: " ++ quoted path.toString
  | nameTooLong path => "[Errno 36] File name too long: " ++ quoted path.toString

inductive Fault where
  /-- An escape names a number past the last code point. -/
  | pastLastCodePoint
  /-- An escape names a number of more than 31 bits. -/
  | pastMachineInteger
  /-- A verbatim literal has no quote. -/
  | noOpeningQuote
  /-- A position in a list that has no element there. -/
  | noSuchElement
  | unknownEncoding (name : String)
  | undecodable (error : DecodeError)
  /-- A UTF-16 text that has to say its byte order does not. -/
  | noByteOrder
  | unencodable (error : EncodeError)
  /-- The name of an encoding has the character zero in it. -/
  | zeroInEncoding
  /-- A path has the character zero in it, and so can name no file. -/
  | zeroInPath
  | file (error : FileError)
deriving DecidableEq, Repr

def Fault.message : Fault → String
  | pastLastCodePoint => "chr() arg not in range(0x110000)"
  | pastMachineInteger => "Python int too large to convert to C int"
  | noOpeningQuote => "substring not found"
  | noSuchElement => "list index out of range"
  | unknownEncoding name => "unknown encoding: " ++ name
  | undecodable error => error.message
  | noByteOrder => "UTF-16 stream does not start with BOM"
  | unencodable error => error.message
  | zeroInEncoding => "embedded null character"
  | zeroInPath => "embedded null byte"
  | file error => error.message

end CommandTrace
