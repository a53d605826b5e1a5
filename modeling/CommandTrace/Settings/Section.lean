/-
Sections of settings, and what is found for their fields.

Each field can be given directly, by a variable of the environment, in a file
of variables, or by a file of its own; the first of these that has it wins, but
objects are merged. A variable has the name of its field after the lead of the
section, in letters of either case.
-/
import CommandTrace.Settings.Dotenv
import CommandTrace.Settings.Options
import CommandTrace.Settings.Problem
import CommandTrace.TextFile

namespace CommandTrace

/-- Where a value was found. -/
inductive ValueSource where
  | environment
  | file
  | folder
deriving DecidableEq, Repr

def ValueSource.name : ValueSource → String
  | environment => "EnvSettingsSource"
  | file => "DotEnvSettingsSource"
  | folder => "SecretsSettingsSource"

/-- Why there are no settings. -/
inductive SettingsError where
  /-- A variable that has to be JSON is not. -/
  | unreadable (field : String) (source : ValueSource)
  /-- The file of a field is no text. -/
  | unobtainable (field : String) (source : ValueSource)
  | invalid (problems : List Problem)
  /-- A file of variables cannot be read. -/
  | fault (cause : Fault)
  /-- A file stands where the folder with the files of the fields should be. -/
  | notFolder
  | tooDeep (nesting : Nesting)
deriving DecidableEq, Repr

namespace SettingsError

def message : SettingsError → String
  | unreadable field source =>
    "error parsing value for field \"" ++ field ++ "\" from source \"" ++ source.name ++ "\""
  | unobtainable field source =>
    "error getting value for field \"" ++ field ++ "\" from source \"" ++ source.name ++ "\""
  | invalid problems =>
    joinWith "\n" (problems.map fun p => joinWith "." p.place ++ ": " ++ p.flaw.message)
  | fault cause => cause.message
  | notFolder => "secrets_dir must reference a directory, not a file"
  | tooDeep .array =>
    "maximum recursion depth exceeded while decoding a JSON array from a unicode string"
  | tooDeep .object =>
    "maximum recursion depth exceeded while decoding a JSON object from a unicode string"

/-- Whether the error of a section that is given as a value is a problem of
that value, and not the end of everything. -/
def isProblem : SettingsError → Bool
  | unreadable .. | unobtainable .. | invalid _ | notFolder => true
  | fault (.undecodable _) | fault (.unencodable _) | fault .noByteOrder | fault .zeroInEncoding => true
  | fault _ | tooDeep _ => false

def ofJson (field : String) (source : ValueSource) : JsonError → SettingsError
  | .malformed => unreadable field source
  | .tooDeep nesting => tooDeep nesting

end SettingsError

/-! ## Variables -/

/-- Named strings; a variable may be there without a value. -/
abbrev Variables := List (String × Option String)

/-- How a variable gives a field. -/
inductive Shape where
  /-- As it stands. -/
  | plain
  /-- As JSON. -/
  | structured
  /-- As JSON, with these fields in it, some of which are JSON if they are given
  alone. -/
  | nested (names structuredNames : List String)
deriving DecidableEq, Repr

/-- What stands before and after the first occurrence of `sep`. -/
def splitFirst? (sep : List Char) : List Char → Option (List Char × List Char)
  | [] => if sep.isEmpty then some ([], []) else none
  | c :: rest =>
    if sep.isPrefixOf (c :: rest) then some ([], (c :: rest).drop sep.length)
    else (splitFirst? sep rest).map fun (before, after) => (c :: before, after)

/-- The parts between the first occurrences of `sep`, of which `most` count. -/
def splitTimes (sep : List Char) : (most : Nat) → List Char → List (List Char)
  | 0, cs => [cs]
  | most + 1, cs =>
    match splitFirst? sep cs with
    | none => [cs]
    | some (before, after) => before :: splitTimes sep most after

namespace LoadOptions

/-- The variables as they are looked up. Of several with the same name the last
counts. -/
def prepare (o : LoadOptions) (vars : Variables) : Variables :=
  (vars.filter fun v => !(o.skipEmpty && v.2 = some "")).foldl
    (fun done v => Dotenv.assign done (o.spelling v.1) v.2) []

/-- An object with its fields named as in the section. Of those that spell the
same name the last counts. -/
def respell (o : LoadOptions) (shape : Shape) (fields : Json.Fields) : Json :=
  match shape with
  | .nested names _ =>
    .object (Json.collapse (fields.map fun (name, value) =>
      (((names.find? (o.spells name)).map Text.ofString).getD name, value)))
  | _ => .object fields

/-- Whether a variable for something inside a field of this shape has to be
JSON. -/
def isStructured (o : LoadOptions) (shape : Shape) (inner : List (List Char)) : Bool :=
  match shape, inner with
  | .nested _ structuredNames, [name] =>
    structuredNames.any fun known =>
      known = String.ofList name || o.variableName known = String.ofList name
  | _, _ => false

/-- The value of a variable for something inside a field. -/
def innerValue (o : LoadOptions) (structured : Bool) (value : Option String) : Except JsonError Json :=
  match value with
  | none => .ok .null
  | some text =>
    if structured ∧ text ≠ "" then Json.parse text
    else .ok (if o.nullText = some text then .null else .string (.ofString text))

/-- What variables give for the inside of a field, piece by piece. -/
def inside (o : LoadOptions) (vars : Variables) (field : String) (shape : Shape) :
    Except JsonError Json.Fields :=
  if o.delimiter = "" then .ok []
  else
    let sep := o.delimiter.toList
    let lead := (o.variableName field).toList ++ sep
    vars.foldlM (fun fields (var, value) =>
      if lead.isPrefixOf var.toList then do
        let rest := var.toList.drop lead.length
        let names := splitTimes sep ((o.innerNames.map (· - 1)).getD rest.length) rest
        let structured := o.isStructured shape names
        let weak := !structured && value.isSome && value = o.nullText
        let new ← o.innerValue structured value
        return Json.plant weak (.ofChars (names.getLastD [])) new (names.dropLast.map .ofChars) fields
      else .ok fields) []

/-- The value that variables give for a field; JSON `null` is none. -/
def value? (o : LoadOptions) (vars : Variables) (field : String) (shape : Shape) :
    Except JsonError (Option Json) :=
  match (vars.lookup (o.variableName field)).join, shape with
  | none, .plain => .ok none
  | none, shape => do
    let fields ← o.inside vars field shape
    return if fields.isEmpty then none else some (o.respell shape fields)
  | some text, shape =>
    if o.nullText = some text then .ok (some .null)
    else if shape = .plain then .ok (some (.string (.ofString text)))
    else do
      match ← Json.parse text with
      | .null => return none
      | .object fields =>
        return some (o.respell shape (Json.updateFields fields (← o.inside vars field shape)))
      | value => return some value

/-! ## Files -/

/-- What is in the files of variables that are there. -/
def fileContents (o : LoadOptions) (root : Item) : Except Fault (List Dotenv.Contents) := do
  let contents ← o.files.mapM fun path => do
    if root.isTooLong path then .error (.file (.nameTooLong path))
    if root.isFileAt path then
      let encoding ← o.fileEncoding.encode.mapError .unencodable
      return [Dotenv.contents (Dotenv.dropMark (← root.readText path encoding))]
    else return []
  return contents.flatten

/-- The folders for the files of fields that are there. -/
def openFolders (o : LoadOptions) (root : Item) : Except SettingsError (List Item) := do
  let found ← o.folders.mapM fun path =>
    if root.isTooLong path then .error (.fault (.file (.nameTooLong path)))
    else .ok (root.find? path).toList
  if found.flatten.all Item.isFolder then return found.flatten else .error .notFolder

/-- The file of a name in the last of the folders that has one. -/
def fileIn? (o : LoadOptions) (folders : List Item) (name : String) : Option SourceFile :=
  folders.reverse.findSome? fun folder =>
    match folder.items.find? fun entry => entry.1 = name || o.spelling entry.1 = name with
    | some (_, .file content) => some content
    | _ => none

end LoadOptions

/-! ## Sections -/

/-- The names of a section's fields in their order, and how they are usually
looked for. -/
structure Section where
  usual : LoadOptions
  fields : List (String × Shape)

namespace Section

def names (s : Section) : List String :=
  s.fields.map Prod.fst

/-- The shape of a field that is the section. -/
def shape (s : Section) : Shape :=
  .nested s.names ((s.fields.filter fun f => f.2 ≠ .plain).map Prod.fst)

/-- The given fields under the names of the section. Of those that spell the
same name the first counts; those that spell none come last. -/
def claim (s : Section) (o : LoadOptions) (given : Json.Fields) : Json.Fields :=
  (s.names.filterMap fun name =>
    (given.find? fun f => o.spells f.1 name).map fun f => (.ofString name, f.2)) ++
  given.filter fun f => !s.names.any (o.spells f.1)

/-- The fields of a section that variables give. -/
def collect (s : Section) (o : LoadOptions) (source : ValueSource) (vars : Variables) :
    Except SettingsError Json.Fields := do
  let found ← s.fields.mapM fun (name, shape) => do
    let value ← (o.value? vars name shape).mapError (.ofJson name source)
    return value.toList.map fun v => (Text.ofString name, v)
  return found.flatten

/-- Variables of a file that are for no field, and stand for fields that the
section does not have. -/
def strangers (s : Section) (o : LoadOptions) (vars : Variables) : Json.Fields :=
  vars.filterMap fun (var, value) =>
    let isKnown := s.fields.any fun (name, shape) =>
      match shape with
      | .nested .. => (o.variableName name).toList.isPrefixOf var.toList
      | _ => o.variableName name = var
    match value with
    | none | some "" => none
    | some text =>
      if isKnown || s.names.contains var then none else some (.ofString var, .string (.ofString text))

/-- The fields of a section that have files of their own. -/
def collectFiles (s : Section) (o : LoadOptions) (folders : List Item) :
    Except SettingsError Json.Fields := do
  let found ← s.fields.mapM fun (name, shape) =>
    match o.fileIn? folders (o.variableName name) with
    | none => .ok []
    | some file => do
      let cs ← (Encoding.utf8.decode? file.bytes).mapError fun _ => .unobtainable name .folder
      let vars : Variables := [(o.variableName name, some (String.ofList (trim (Line.unify cs))))]
      let plainly := { o with nullText := none, delimiter := "" }
      let value ← (plainly.value? vars name shape).mapError (.ofJson name .folder)
      return value.toList.map fun v => (Text.ofString name, v)
  return found.flatten

/-- All that is found or given for the fields of a section. -/
def gather (s : Section) (environment : List (String × String)) (root : Item) (given : Json.Fields) :
    Except SettingsError Json.Fields := do
  let o := s.usual.ofGiven given
  let contents ← (o.fileContents root).mapError .fault
  let inFiles := o.prepare (contents.flatMap fun c => Dotenv.filledIn environment c.bindings)
  let found ← s.collect o .environment
    (o.prepare (environment.map fun (name, value) => (name, some value)))
  let filed ← s.collect o .file inFiles
  let alone ← s.collectFiles o (← o.openFolders root)
  let filed := Json.updateFields alone (filed ++ s.strangers o inFiles)
  let given := s.claim o (given.filter fun f => !LoadOptions.isName f.1)
  return Json.updateFields (Json.updateFields filed found) given

end Section

end CommandTrace
