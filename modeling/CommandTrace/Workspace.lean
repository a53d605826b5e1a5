/-
The files that a run can see: a folder with files and folders in it.

A path is looked up component by component, so `..` leads to the folder that
is really above, and what stands before it has to be there. Outside, above the
top and at the root of all paths, there are folders of which nothing is known.
-/
import CommandTrace.Fault
import CommandTrace.Syntax.ParseTree

namespace CommandTrace

/-- The parse that belongs to a file's content. -/
structure Parse where
  tree : ParseTree
  hasError : Bool

/-- A file: its bytes, and the parse of its content where it is no plain
text. -/
structure SourceFile where
  bytes : List UInt8
  parse : Option Parse := none

/-- A file or a folder. -/
inductive Item where
  | file (content : SourceFile)
  | folder (items : List (String × Item))

namespace Item

def empty : Item := folder []

def isFolder : Item → Bool
  | file _ => false
  | folder _ => true

def items : Item → List (String × Item)
  | file _ => []
  | folder items => items

def child? (item : Item) (name : String) : Option Item :=
  (item.items.find? fun entry => entry.1 = name).map Prod.snd

/-- The folder with an item put under a name. -/
def put (item : Item) (name : String) (new : Item) : Item :=
  if item.items.any fun entry => entry.1 = name then
    folder (item.items.map fun entry => if entry.1 = name then (name, new) else entry)
  else folder (item.items ++ [(name, new)])

/-- Puts an item at a place, making the folders on the way. -/
def insert (new : Item) : List String → Item → Item
  | [], _ => new
  | name :: rest, item => item.put name (insert new rest ((item.child? name).getD empty))

/-- Makes sure that there is a folder at a place. -/
def insertFolder : List String → Item → Item
  | [], item => folder item.items
  | name :: rest, item => item.put name (insertFolder rest ((item.child? name).getD empty))

end Item

/-- The most bytes that a name may have. -/
def nameLimit : Nat := 255

/-- The most bytes that a path may have. -/
def pathLimit : Nat := 4095

/-- Why a component of a path leads nowhere. -/
inductive StepError where
  | missing
  | insideFile
  | tooLong

def StepError.toFileError (path : Path) : StepError → FileError
  | missing => .notFound path
  | insideFile => .notDirectory path
  | tooLong => .nameTooLong path

/-- A place in a workspace: its components from the top, the item there, and
the places above, nearest first. -/
structure Place where
  parts : List String
  item : Item
  above : List (List String × Item)

namespace Place

def top (root : Item) : Place :=
  ⟨[], root, []⟩

/-- A folder that is not part of the workspace. -/
def outside (parts : List String) : Place :=
  ⟨parts, Item.empty, []⟩

def step (p : Place) (name : String) : Except StepError Place :=
  if p.item.isFolder then
    if name = ".." then
      match p.above with
      | [] => .ok (outside (p.parts ++ [name]))
      | (parts, item) :: above => .ok ⟨parts, item, above⟩
    else if nameLimit < name.utf8ByteSize then .error .tooLong
    else
      match p.item.child? name with
      | none => .error .missing
      | some item => .ok ⟨p.parts ++ [name], item, (p.parts, p.item) :: p.above⟩
  else .error .insideFile

end Place

namespace Item

/-- The place a path leads to. -/
def locate (root : Item) (path : Path) : Except FileError Place :=
  if pathLimit < path.toString.utf8ByteSize then .error (.nameTooLong path)
  else
    let start := if path.isAbsolute then Place.outside [""] else Place.top root
    (path.parts.foldlM Place.step start).mapError (·.toFileError path)

def find? (root : Item) (path : Path) : Option Item :=
  match root.locate path with
  | .ok place => some place.item
  | .error _ => none

def isFolderAt (root : Item) (path : Path) : Bool :=
  (root.find? path).any isFolder

def isFileAt (root : Item) (path : Path) : Bool :=
  (root.find? path).any fun item => !item.isFolder

/-- Whether it fails to ask for a path at all. A path with the character zero in
it is nowhere, however long it is. -/
def isTooLong (root : Item) (path : Path) : Bool :=
  match root.locate path with
  | .error (.nameTooLong _) => !path.hasZero
  | _ => false

/-- What is found out about a path that can be opened. -/
def openable {α : Type} (path : Path) (found : Except FileError α) : Except Fault α :=
  if path.hasZero then .error .zeroInPath else found.mapError .file

/-- The file at a path. -/
def readFile (root : Item) (path : Path) : Except Fault SourceFile :=
  openable path do
    match (← root.locate path).item with
    | file content => return content
    | folder _ => .error (.isDirectory path)

/-- Where a file written to a path comes to lie. -/
def placeToWrite (root : Item) (path : Path) : Except Fault (List String) :=
  openable path do
    match root.locate path with
    | .ok place => if place.item.isFolder then .error (.isDirectory path) else .ok place.parts
    | .error (.notFound _) =>
      match path.parts.getLast?, root.locate path.parent with
      | some name, .ok place =>
        if name = ".." then .error (.notFound path) else .ok (place.parts ++ [name])
      | _, _ => .error (.notFound path)
    | .error error => .error error

/-- The folders at and below an item, as paths that start with the item's. -/
def folders (path : Path) : Item → List Path
  | file _ => []
  | folder items => path :: foldersIn items
where
  foldersIn : List (String × Item) → List Path
    | [] => []
    | (name, item) :: rest => folders (path.child name) item ++ foldersIn rest

end Item

end CommandTrace
