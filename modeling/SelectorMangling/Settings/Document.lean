import SelectorMangling.Settings.Basic
import SelectorMangling.Toml.Reader

/-!
# Settings files

A settings file is a TOML document with the fields of the settings as keys.  Fields that are not
there keep their default.  The keys are taken in the order of the document, and the first one that
is unknown or has a value of the wrong kind is told.
-/

namespace SelectorMangling.Settings

inductive DocumentError where
  | malformed
  | unknownField (name : String)
  /-- A value of another kind was found than what was expected. -/
  | wrongKind (found expected : String)
deriving DecidableEq, Repr

def fieldNames : List String :=
  ["dist_dir", "cache_path", "reference_locale", "skip_dirs", "index_file", "framework_prefixes",
   "class_name_ignore", "framework_ignore", "elevation_prefix"]

def DocumentError.message : DocumentError → String
  | malformed => "malformed TOML document"
  | unknownField name =>
    let known := ", ".intercalate (fieldNames.map fun field => s!"`{field}`")
    s!"unknown field `{name}`, expected one of {known}"
  | wrongKind found expected => s!"invalid type: {found}, expected {expected}"

/-- A text; `expected` says what it stands for. -/
def textOf (expected : String) : Toml.Value → Except DocumentError String
  | .text content => .ok content
  | other => .error (.wrongKind other.described expected)

def pathOf (value : Toml.Value) : Except DocumentError Path :=
  (textOf "path string" value).map Path.mk

def textsOf : Toml.Value → Except DocumentError (List String)
  | .array items => items.mapM (textOf "a string")
  | other => .error (.wrongKind other.described "a sequence")

def setField (settings : Settings) (key : String) (value : Toml.Value) :
    Except DocumentError Settings :=
  match key with
  | "dist_dir" => do return { settings with distDir := ← pathOf value }
  | "cache_path" => do return { settings with cachePath := ← pathOf value }
  | "reference_locale" => do
    return { settings with referenceLocale := ← textOf "a string" value }
  | "skip_dirs" => do return { settings with skipDirs := ← textsOf value }
  | "index_file" => do return { settings with indexFile := ← textOf "a string" value }
  | "framework_prefixes" => do return { settings with frameworkPrefixes := ← textsOf value }
  | "class_name_ignore" => do return { settings with classNameIgnore := ← textsOf value }
  | "framework_ignore" => do return { settings with frameworkIgnore := ← textsOf value }
  | "elevation_prefix" => do
    return { settings with elevationPrefix := ← textOf "a string" value }
  | _ => .error (.unknownField key)

def setFields (settings : Settings) : List (String × Toml.Value) → Except DocumentError Settings
  | [] => .ok settings
  | (key, value) :: rest => do (← settings.setField key value).setFields rest

def parse (text : String) : Except DocumentError Settings :=
  match Toml.parse? text with
  | none => .error .malformed
  | some members => ({} : Settings).setFields members

end SelectorMangling.Settings
