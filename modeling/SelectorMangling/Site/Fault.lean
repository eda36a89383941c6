import SelectorMangling.Catalog.Consistency
import SelectorMangling.Catalog.Store
import SelectorMangling.Code
import SelectorMangling.Reason

/-!
# Faults of a run

The reasons for which the selectors of a locale are not mangled.
-/

namespace SelectorMangling.Site

inductive Fault where
  | missingLocale (directory : Path)
  | pattern (fault : Pattern.Fault)
  | load (fault : Catalog.StoreFault)
  | save (fault : Catalog.StoreFault)
  | inconsistent (cause : Catalog.Duplicates)
  /-- No code is left for a new name. -/
  | exhausted (cause : Code.Exhausted)
  /-- The feature folders of a directory cannot be listed. -/
  | walk (directory : Path) (fault : FileFault)
  /-- The files of a directory cannot be listed. -/
  | list (directory : Path) (fault : FileFault)
  | read (file : Path) (fault : FileFault)
  | write (file : Path) (fault : FileFault)
  /-- Rewriting a file comes to no result. -/
  | stuck (file : Path)
deriving DecidableEq, Repr

/-- Whether a run comes back with a fault.  One that is stuck returns nothing and tells nothing. -/
def Fault.isReturned : Fault → Bool
  | stuck _ => false
  | _ => true

/-- What is told about a walk whose root cannot be looked at. -/
def walkMessage (root : Path) (fault : FileFault) : String :=
  s!"{root.text}: IO error for operation on {root.text}: {fault.message}"

def Fault.chain : Fault → List Reason
  | missingLocale directory => [.stated s!"locale directory {directory.quoted} does not exist"]
  | pattern fault => [.stated "failed to compile selector patterns", .pattern fault]
  | load fault => .stated "failed to load the selector catalog" :: fault.chain
  | save fault => .stated "failed to save the selector catalog" :: fault.chain
  | inconsistent cause =>
    [.stated "duplicate selectors detected in the selector catalog", .stated cause.message]
  | exhausted cause => [.stated "failed to allocate a code", .stated cause.message]
  | walk directory fault =>
    [.stated s!"failed to list feature folders in {directory.quoted}",
     .stated (walkMessage directory fault)]
  | list directory fault =>
    [.stated s!"failed to list files in {directory.quoted}", .stated fault.message]
  | read file fault => [.stated s!"failed to read file {file.quoted}", .stated fault.message]
  | write file fault => [.stated s!"failed to write file {file.quoted}", .stated fault.message]
  | stuck _ => []

end SelectorMangling.Site
