import SelectorMangling.Path.Basic

/-!
# Command line arguments

The command line names a locale and may override settings by options.  The value of an option
stands behind it or is joined to it by an equals sign.  Everything behind two bare hyphens is a
value.

Arguments are read from left to right, and reading stops at the first fault or at a request for
help or for the version.  The value of an option counts once the next argument is looked at, so
that an unknown argument is told before a value that turns out to be missing, repeated or empty.
-/

namespace SelectorMangling

/-- The settings that options override. -/
structure Options where
  config : Option Path := none
  distDir : Option Path := none
  cache : Option Path := none
  referenceLocale : Option String := none
deriving DecidableEq, Repr, Inhabited

structure Arguments where
  locale : String
  options : Options := {}
deriving DecidableEq, Repr

namespace Arguments

inductive Flag where
  | config
  | distDir
  | cache
  | referenceLocale
deriving DecidableEq, Repr

def Flag.name : Flag → String
  | config => "config"
  | distDir => "dist-dir"
  | cache => "cache"
  | referenceLocale => "reference-locale"

def Flag.all : List Flag := [config, distDir, cache, referenceLocale]

def Flag.ofName? (name : String) : Option Flag := Flag.all.find? (·.name == name)

/-- Why the arguments come to no run. -/
inductive Stop where
  | help
  | version
  | unknownArgument (argument : String)
  /-- The value of an option is missing, or empty where a path is asked for. -/
  | invalidValue (flag : Flag)
  | missingLocale
  | repeatedFlag (flag : Flag)
  /-- A value is joined to an option that takes none. -/
  | unneededValue (argument : String)
deriving DecidableEq, Repr

def versionText : String := "mangler 0.1.0\n"

def usageText : String := "Usage: mangler [OPTIONS] <LOCALE>"

def helpText : String :=
  "Mangle CSS selectors of a multi-locale static site\n" ++
  "\n" ++
  usageText ++ "\n" ++
  "\n" ++
  "Arguments:\n" ++
  "  <LOCALE>  Locale to mangle (e.g. \"en\", \"es\", \"vi\")\n" ++
  "\n" ++
  "Options:\n" ++
  "      --config <CONFIG>\n" ++
  "          Configuration file [default: \"mangler.config.toml\"]\n" ++
  "      --dist-dir <DIST_DIR>\n" ++
  "          Directory containing one output directory per locale [default: \"dist\"]\n" ++
  "      --cache <CACHE>\n" ++
  "          Selector catalog file [default: \".mangled-selectors.json\"]\n" ++
  "      --reference-locale <REFERENCE_LOCALE>\n" ++
  "          Locale from which the selector catalog is built [default: \"en\"]\n" ++
  "  -h, --help\n" ++
  "          Print help\n" ++
  "  -V, --version\n" ++
  "          Print version\n"

def Stop.message : Stop → String
  | help => helpText
  | version => versionText
  | unknownArgument argument => s!"unexpected argument '{argument}' found"
  | invalidValue flag => s!"a value is required for '--{flag.name}' but none was supplied"
  | missingLocale => "the following required arguments were not provided:\n  <LOCALE>"
  | repeatedFlag flag => s!"the argument '--{flag.name}' cannot be used multiple times"
  | unneededValue argument => s!"unexpected value for '--{argument}' found; no more were expected"

/-- What has been read of the arguments. -/
structure Reading where
  locale : Option String := none
  options : Options := {}
  /-- The last option and its value, which do not count yet. -/
  pending : Option (Flag × Option String) := none

namespace Reading

def has (reading : Reading) : Flag → Bool
  | .config => reading.options.config.isSome
  | .distDir => reading.options.distDir.isSome
  | .cache => reading.options.cache.isSome
  | .referenceLocale => reading.options.referenceLocale.isSome

/-- Gives an option its value.  It must not have one already, and a path must not be empty. -/
def assign (reading : Reading) (flag : Flag) (value : String) : Except Stop Reading :=
  if reading.has flag then .error (.repeatedFlag flag)
  else if value.isEmpty && flag != .referenceLocale then .error (.invalidValue flag)
  else
    let options := reading.options
    .ok
      { reading with
        options :=
          match flag with
          | .config => { options with config := some ⟨value⟩ }
          | .distDir => { options with distDir := some ⟨value⟩ }
          | .cache => { options with cache := some ⟨value⟩ }
          | .referenceLocale => { options with referenceLocale := some value } }

/-- Lets the last option count. -/
def settle (reading : Reading) : Except Stop Reading :=
  match reading.pending with
  | none => .ok reading
  | some (flag, none) => .error (.invalidValue flag)
  | some (flag, some value) => { reading with pending := none }.assign flag value

/-- Takes an argument that stands for itself: the locale, which must be the only one. -/
def takeLocale (reading : Reading) (argument : String) : Except Stop Reading :=
  match reading.locale with
  | some _ => .error (.unknownArgument argument)
  | none => do return { ← reading.settle with locale := some argument }

/-- Takes an option by its name and the value joined to it. -/
def takeLong (reading : Reading) (name : String) (joined : Option String) :
    Except Stop Reading :=
  match Flag.ofName? name, joined with
  | some flag, some value => do (← reading.settle).assign flag value
  | some flag, none => do return { ← reading.settle with pending := some (flag, none) }
  | none, joined =>
    if name = "help" ∨ name = "version" then
      if joined.isSome then .error (.unneededValue name)
      else do
        let _ ← reading.settle
        .error (if name = "help" then .help else .version)
    else .error (.unknownArgument ("--" ++ name))

/-- Takes a group of one-letter options, of which the first decides. -/
def takeShort (reading : Reading) (letter : Char) : Except Stop Reading :=
  if letter = 'h' ∨ letter = 'V' then do
    let _ ← reading.settle
    .error (if letter = 'h' then .help else .version)
  else .error (.unknownArgument (String.ofList ['-', letter]))

/-- Takes an argument without hyphens: the value of the last option if it still needs one, or the
locale. -/
def takePlain (reading : Reading) (argument : String) : Except Stop Reading :=
  match reading.pending with
  | some (flag, none) => .ok { reading with pending := some (flag, some argument) }
  | _ => reading.takeLocale argument

def take (reading : Reading) (argument : String) : Except Stop Reading :=
  match argument.toList with
  | '-' :: '-' :: long =>
    let name := long.takeWhile (· != '=')
    match long.drop name.length with
    | [] => reading.takeLong (String.ofList name) none
    | _ :: value => reading.takeLong (String.ofList name) (some (String.ofList value))
  | '-' :: letter :: _ => reading.takeShort letter
  | _ => reading.takePlain argument

def takeAll (reading : Reading) : List String → Except Stop Reading
  | [] => .ok reading
  | argument :: rest =>
    if argument = "--" then rest.foldlM takeLocale reading
    else do (← reading.take argument).takeAll rest

end Reading

def parse (arguments : List String) : Except Stop Arguments := do
  let reading ← (← ({} : Reading).takeAll arguments).settle
  match reading.locale with
  | none => .error .missingLocale
  | some locale => return { locale, options := reading.options }

end Arguments

end SelectorMangling
