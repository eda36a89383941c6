import SelectorMangling.Path.Normal
import SelectorMangling.Text.Quoted

/-!
# Settings

What a run works on and by which rules, the values that hold unless something else is asked for,
and the conditions that settings have to meet.
-/

namespace SelectorMangling

/-- Whether a text names a single directory.  A locale is named so, such as `en` or `pt-BR`. -/
def isValidLocale (locale : String) : Bool :=
  match (Path.mk locale).components with
  | [.name _] => true
  | _ => false

structure Settings where
  /-- The directory with one output directory for each locale. -/
  distDir : Path := ⟨"dist"⟩
  cachePath : Path := ⟨".mangled-selectors.json"⟩
  referenceLocale : String := "en"
  /-- Names of directories that are not searched for feature folders. -/
  skipDirs : List String := ["assets", "media"]
  /-- Name of the file that marks a feature folder. -/
  indexFile : String := "index.html"
  frameworkPrefixes : List String := ["lc", "mat", "mdc", "color"]
  /-- Patterns of class names to leave alone.  Some of these names look like subtractions in a
  script. -/
  classNameIgnore : List String :=
    ["^width-", "^height-", "^left-", "^top-", "^right-", "^bottom-", "^x-", "^y-", "^[a-z]+--",
     "^mat-accent$", "^mat-warn$", "^mat-primary$", "^mat-column-.+", "^color-mix$"]
  frameworkIgnore : List String :=
    ["^lc-app$", "^mat-accent$", "^mat-warn$", "^mat-primary$", "^mat-column-.+", "^color-mix$"]
  elevationPrefix : String := "mat-elevation-z"
deriving DecidableEq, Repr, Inhabited

namespace Settings

def defaultFile : String := "mangler.config.toml"

inductive Invalid where
  /-- The catalog would be shipped with the output. -/
  | cacheInsideDist
  | referenceLocale (locale : String)
  | frameworkPrefixes
  | indexFile
deriving DecidableEq, Repr

def Invalid.message : Invalid → String
  | cacheInsideDist => "`cache_path` must be located outside `dist_dir`"
  | referenceLocale locale => "invalid `reference_locale` " ++ Text.quoted locale
  | frameworkPrefixes => "`framework_prefixes` must contain non-empty prefixes"
  | indexFile => "`index_file` must not be empty"

/-- Makes the paths absolute and normal, relative to a directory. -/
def locate (settings : Settings) (directory : Path) : Settings :=
  { settings with
    distDir := (directory.join settings.distDir).normalize
    cachePath := (directory.join settings.cachePath).normalize }

/-- Refuses settings that a run cannot go by.  The first condition that fails is told. -/
def check (settings : Settings) : Except Invalid Unit :=
  if settings.cachePath.startsWith settings.distDir then
    .error .cacheInsideDist
  else if !isValidLocale settings.referenceLocale then
    .error (.referenceLocale settings.referenceLocale)
  else if settings.frameworkPrefixes.any String.isEmpty || settings.frameworkPrefixes.isEmpty then
    .error .frameworkPrefixes
  else if settings.indexFile.isEmpty then
    .error .indexFile
  else
    .ok ()

end Settings

end SelectorMangling
