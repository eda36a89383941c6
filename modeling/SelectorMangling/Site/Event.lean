import SelectorMangling.Catalog.Basic
import SelectorMangling.Path.Basic

/-!
# Events

What a run tells about its progress, one line for each event.
-/

namespace SelectorMangling.Site

inductive Level where
  | error
  | warn
  | info
  | debug
deriving DecidableEq, Repr

def Level.name : Level → String
  | error => "ERROR"
  | warn => "WARN"
  | info => "INFO"
  | debug => "DEBUG"

/-- Something that a run tells about. -/
inductive Event where
  | started (locale : String)
  /-- The catalog is about to be extended from a directory. -/
  | building (directory : Path)
  /-- A directory is no feature folder, since it lacks the index file. -/
  | skipped (directory : Path) (indexFile : String)
  | walkFailed (directory : Path)
  | added (name code : String)
  | scanFailed (file : String) (folder : Path)
  /-- The elevation prefix has no code. -/
  | elevationSkipped (stem : String)
  | elevated (name code : String)
  | saved (size new : Nat) (path : Path)
  | shown (catalog : Catalog)
  | duplicates (locale : String)
  /-- The catalog is used as it is. -/
  | using (path : Path) (size : Nat)
  /-- A name was found in a text, but not in the catalog. -/
  | unknown (name : String)
  | rewritten (file : String) (folder : Path)
  | rewriteFailed (file : String) (folder : Path)
  | scanned (files new size : Nat)
  | finished (files size : Nat)

namespace Event

def level : Event → Level
  | walkFailed _ | scanFailed _ _ | duplicates _ | unknown _ | rewriteFailed _ _ => .error
  | elevationSkipped _ => .warn
  | skipped _ _ | added _ _ | elevated _ _ | shown _ => .debug
  | started _ | building _ | saved _ _ _ | .using _ _ | rewritten _ _ | scanned _ _ _
  | finished _ _ => .info

/-- The line of an event.  `seconds` is how long the run took, which its last line tells. -/
def message (seconds : String) : Event → String
  | started locale => s!"Mangling selectors for locale {Text.quoted locale}..."
  | building directory => s!"Building selector catalog from {directory.quoted}"
  | skipped directory indexFile =>
    s!"Skipping {directory.quoted}: no {Text.quoted indexFile}"
  | walkFailed directory => s!"Failed to list feature folders in {directory.quoted}"
  | added name code => s!"Selector {Text.quoted name} -> {Text.quoted code}"
  | scanFailed file folder =>
    s!"Failed to create mangled selectors in file {Text.quoted file} in folder {folder.quoted}"
  | elevationSkipped stem =>
    s!"Elevation prefix {Text.quoted stem} is not cataloged, skipping"
  | elevated name code => s!"Elevation selector {Text.quoted name} -> {Text.quoted code}"
  | saved size new path => s!"Wrote {size} selectors ({new} new) to {path.quoted}"
  | shown catalog => catalog.display
  | duplicates locale =>
    s!"Duplicate selectors detected when building for locale {Text.quoted locale}"
  | .using path size => s!"Using selector catalog {path.quoted} ({size} selectors)"
  | unknown name => s!"Selector {Text.quoted name} not found in mangled selector table"
  | rewritten file folder =>
    s!"Mangled selectors in file {Text.quoted file} in {folder.quoted}"
  | rewriteFailed file folder =>
    s!"Failed to mangle selectors in file {Text.quoted file} in {folder.quoted}"
  | scanned files new size =>
    s!"Scanned {files} files, cataloged {new} new selectors ({size} total)"
  | finished files size => s!"Mangled {files} files with {size} selectors in {seconds} seconds"

end Event

end SelectorMangling.Site
