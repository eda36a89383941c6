import SelectorMangling.CommandLine.Arguments
import SelectorMangling.FileTree.Content
import SelectorMangling.Path.Basic
import SelectorMangling.Reason
import SelectorMangling.Settings.Document

/-!
# Loading settings

Settings come from the settings file that the options name, or else from the default file of the
current directory if it is there.  Options override what the file says.
-/

namespace SelectorMangling.Settings

inductive LoadFault where
  | unreadable (file : Path) (fault : FileFault)
  | document (file : Path) (error : DocumentError)
  | invalid (cause : Invalid)
deriving DecidableEq, Repr

def LoadFault.chain : LoadFault → List Reason
  | unreadable file fault =>
    [.stated s!"reading configuration file {file.quoted}", .stated fault.message]
  | document file error =>
    [.stated s!"reading configuration file {file.quoted}", reasonOf error]
  | invalid cause => [.stated cause.message]
where
  reasonOf : DocumentError → Reason
    | .malformed => .toml
    | error => .stated error.message

def ofFile (tree : FileTree) (file : Path) : Except LoadFault Settings :=
  match tree.readText file with
  | .error fault => .error (.unreadable file fault)
  | .ok text => (parse text).mapError (.document file)

/-- The settings file to read, if any. -/
def fileOf? (tree : FileTree) (options : Options) : Option Path :=
  match options.config with
  | some file => some file
  | none => if tree.exists? ⟨defaultFile⟩ then some ⟨defaultFile⟩ else none

def override (settings : Settings) (options : Options) : Settings :=
  { settings with
    distDir := options.distDir.getD settings.distDir
    cachePath := options.cache.getD settings.cachePath
    referenceLocale := options.referenceLocale.getD settings.referenceLocale }

/-- The settings that options ask for, with absolute paths. -/
def ofOptions (tree : FileTree) (options : Options) : Except LoadFault Settings := do
  let written ←
    match fileOf? tree options with
    | some file => ofFile tree file
    | none => pure {}
  let settings := (written.override options).locate tree.currentPath
  settings.check.mapError .invalid
  return settings

end SelectorMangling.Settings
