/-
Finding the files of a run: those below a folder that a pattern is for, sorted,
without those in folders to be ignored.

A pattern is followed from folder to folder, which yields paths (`follow`), and
of these the files are kept (`keepFiles`). Both fail where they ask for a path
that is longer than paths can be. How deep folders are in each other is not
limited here.
-/
import CommandTrace.Distinct
import CommandTrace.Glob
import CommandTrace.Workspace

namespace CommandTrace

/-- Why files cannot be found. -/
inductive DiscoveryError where
  | pattern (error : GlobError)
  | file (error : FileError)
deriving DecidableEq, Repr

namespace Item

/-- A path that is looked at while a pattern is followed. -/
inductive Visit where
  /-- On the way. -/
  | way (path : Path)
  /-- Where the pattern ends. -/
  | stop (path : Path)
deriving DecidableEq, Repr

def Visit.path : Visit → Path
  | way path => path
  | stop path => path

def Visit.found? : Visit → Option Path
  | way _ => none
  | stop path => some path

/-- The visits that the steps of a pattern make from a folder, in their order.
All steps but the last lead to folders. -/
def visits (root : Item) : List Glob.Step → Path → List Visit
  | [], path => [.stop path]
  | .folderEnd :: _, path => [.stop path]
  | .folders :: rest, path =>
    (((root.find? path).map (folders path)).getD []).flatMap fun folder =>
      visits root rest folder ++ [.way folder]
  | .named name :: rest, path =>
    let next := path.child name
    let there := if rest.isEmpty then (root.find? next).isSome else root.isFolderAt next
    .way next :: if there then visits root rest next else []
  | .fitting elements :: rest, path =>
    let entries := ((root.find? path).map items).getD []
    .way path :: (entries.filter fun (name, item) =>
      (rest.isEmpty || item.isFolder) && Glob.fits elements name.toList).flatMap fun (name, _) =>
        visits root rest (path.child name)

/-- Whether a pattern can be followed no further than to this visit. -/
def Visit.fails (root : Item) : Visit → Bool
  | way path => root.isTooLong path
  | stop _ => false

/-- What following a pattern yields: paths where it ends, and the path on the way
that it fails at after these. -/
structure Yield where
  paths : List Path
  failure : Option Path
deriving DecidableEq, Repr

/-- Follows the steps of a pattern from a folder. No path is yielded twice. -/
def follow (root : Item) (steps : List Glob.Step) (folder : Path) : Yield :=
  let visits := .way folder :: if root.isFolderAt folder then root.visits steps folder else []
  { paths := distinct ((visits.takeWhile fun visit => !visit.fails root).filterMap Visit.found?)
    failure := (visits.find? fun visit => visit.fails root).map Visit.path }

/-- The names of the folders between a folder and a path below it. -/
def between (folder path : Path) : List String :=
  (path.parts.drop folder.parts.length).dropLast

/-- The files among the paths, sorted, without those in ignored folders. -/
def filesAmong (root : Item) (folder : Path) (ignored : List String) (paths : List Path) : List Path :=
  (paths.filter fun path =>
    root.isFileAt path && (between folder path).all fun name => !ignored.contains name).mergeSort Path.le

/-- The files among what is yielded. It asks for each path whether a file is there
before it looks at the folders that the path leads through. -/
def keepFiles (root : Item) (folder : Path) (ignored : List String) (found : Yield) :
    Except DiscoveryError (List Path) :=
  match (found.paths.find? root.isTooLong).or found.failure with
  | some path => .error (.file (.nameTooLong path))
  | none => .ok (root.filesAmong folder ignored found.paths)

/-- The files below `folder` that the pattern is for. -/
def discover (root : Item) (folder : Path) (pattern : String) (ignored : List String) :
    Except DiscoveryError (List Path) := do
  let steps ← (Glob.parse pattern).mapError .pattern
  root.keepFiles folder ignored (root.follow steps folder)

end Item

end CommandTrace
