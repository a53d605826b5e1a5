/-
The command line.

Standard input lists the files that the run may see, one path a line. A file
with `.tree` after the name of another is the listing of its parse and belongs
to that one. The report is written where the run says, and everything else
goes to the standard streams.
-/
import CommandTrace.Command
import CommandTrace.Syntax.Listing

namespace CommandTrace.Main

partial def inputLines (input : IO.FS.Stream) : IO (List String) := do
  let line ← input.getLine
  if line.isEmpty then return []
  return strip line :: (← inputLines input)

/-- What the name of a listing has after the name of its file. -/
def listingMark : String := ".tree"

/-- The parse of a file, where it is listed. -/
def parseOf (paths : List String) (path : String) : IO (Option Parse) := do
  let listing := path ++ listingMark
  if paths.contains listing then
    let text ← IO.FS.readFile listing
    return Listing.parse? ((Line.split text.toList).map String.ofList)
  return none

/-- The files as a folder. -/
def readWorkspace (paths : List String) : IO Item := do
  let mut root := Item.empty
  for path in paths do
    if !path.endsWith listingMark then
      let bytes := (← IO.FS.readBinFile path).toList
      let parse ← parseOf paths path
      root := .insert (.file { bytes, parse }) (Path.ofString path).parts root
  return root

/-- The variables that settings are read from. -/
def variableNames : List String :=
  [Settings.fields, Settings.Extraction.fields, Settings.Logging.fields].flatMap fun s =>
    s.names.map s.usual.variableName

def readEnvironment : IO (List (String × String)) := do
  let mut found := []
  for name in variableNames.map upperCase ++ variableNames do
    if let some value ← IO.getEnv name then
      found := found ++ [(name, value)]
  return found

end CommandTrace.Main

open CommandTrace in
/-- Runs the command and shows what it leaves behind. -/
def main (words : List String) : IO UInt32 := do
  let start ← IO.monoMsNow
  let root ← Main.readWorkspace (← Main.inputLines (← IO.getStdin))
  let (transcript, ending) := Command.run words (← Main.readEnvironment) root
  if let some file := transcript.written then
    IO.FS.writeFile (joinWith "/" file.place) file.text
  let seconds := Command.seconds ((← IO.monoMsNow) - start)
  transcript.logText.forM fun line => IO.eprintln line
  transcript.errors.forM fun line => IO.eprintln line
  transcript.output.forM fun line => IO.println (line.render seconds)
  if let .failed failure := ending then
    IO.eprintln failure.message.shown
  return UInt32.ofNat ending.status
