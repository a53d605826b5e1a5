/-
How the fields of a section are looked for.

The options of a section may stand among the values that are given for it,
under names that start with `_`. An option that is `null` is as good as none,
but for the files of variables, which there are none of then.
-/
import CommandTrace.Path
import CommandTrace.Settings.Json
import CommandTrace.Text.Lower

namespace CommandTrace

structure LoadOptions where
  /-- What the names of variables start with. -/
  lead : String := ""
  /-- Whether a name is to be in the same case as the field's. -/
  exactCase : Bool := false
  /-- Whether a variable without a text is none. -/
  skipEmpty : Bool := false
  /-- The text that stands for `null`. -/
  nullText : Option String := none
  /-- What stands in the name of a variable before the name of a field inside
  the field. If it is empty, there are no such variables. -/
  delimiter : String := ""
  /-- How many names there can be after the first, if that is limited. -/
  innerNames : Option Nat := none
  /-- The files of variables; later ones win. -/
  files : List Path := []
  fileEncoding : Text := .ofString "utf-8"
  /-- Folders with a file for each field; later ones win. -/
  folders : List Path := []

namespace LoadOptions

/-- The names of all options. Those that are not read below make no difference
to these settings. -/
def names : List String :=
  ["_case_sensitive", "_nested_model_default_partial_update", "_env_prefix", "_env_file",
    "_env_file_encoding", "_env_ignore_empty", "_env_nested_delimiter", "_env_nested_max_split",
    "_env_parse_none_str", "_env_parse_enums", "_cli_prog_name", "_cli_parse_args",
    "_cli_settings_source", "_cli_parse_none_str", "_cli_hide_none_type", "_cli_avoid_json",
    "_cli_enforce_required", "_cli_use_class_docs_for_groups", "_cli_exit_on_error", "_cli_prefix",
    "_cli_flag_prefix_char", "_cli_implicit_flags", "_cli_ignore_unknown_args", "_cli_kebab_case",
    "_cli_shortcuts", "_secrets_dir"]

def isName (name : Text) : Bool :=
  (names.map Text.ofString).contains name

/-- One path, or a list of them. -/
def paths : Json → List Path
  | .string t => [.ofString t.comparable]
  | .array items =>
    items.filterMap fun item =>
      match item with
      | .string t => some (.ofString t.comparable)
      | _ => none
  | _ => []

/-- The usual options with those that are among the given values. -/
def ofGiven (usual : LoadOptions) (given : Json.Fields) : LoadOptions :=
  let value? (name : String) : Option Json := Json.field? given (.ofString name)
  let text? (name : String) : Option Text :=
    match value? name with
    | some (.string t) => some t
    | _ => none
  let yes (name : String) (usual : Bool) : Bool :=
    match value? name with
    | none | some .null => usual
    | some value => value.isYes
  { lead := ((text? "_env_prefix").map Text.comparable).getD usual.lead
    exactCase := yes "_case_sensitive" usual.exactCase
    skipEmpty := yes "_env_ignore_empty" usual.skipEmpty
    nullText := ((text? "_env_parse_none_str").map Text.comparable) <|> usual.nullText
    delimiter := ((text? "_env_nested_delimiter").map Text.comparable).getD usual.delimiter
    innerNames :=
      match value? "_env_nested_max_split" with
      | some (.int n) => if 0 < n then some n.toNat else none
      | _ => usual.innerNames
    files := ((value? "_env_file").map paths).getD usual.files
    fileEncoding := ((text? "_env_file_encoding").filter (· ≠ [])).getD usual.fileEncoding
    folders := ((value? "_secrets_dir").map paths).getD usual.folders }

/-- A name as it is compared with others. -/
def spelling (o : LoadOptions) (name : String) : String :=
  if o.exactCase then name else lowerCase name

/-- Whether a given name is the name of a field. -/
def spells (o : LoadOptions) (given : Text) (name : String) : Bool :=
  (if o.exactCase then given else given.mapChars Lower.ofChar) = .ofString name

/-- The name of a field's variable. -/
def variableName (o : LoadOptions) (field : String) : String :=
  o.spelling (o.lead ++ field)

end LoadOptions

end CommandTrace
