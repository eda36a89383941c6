import SelectorMangling.Catalog.Format
import SelectorMangling.FileTree.Content
import SelectorMangling.Path.Basic
import SelectorMangling.Reason

/-!
# Storing catalogs

A catalog is kept in a file between runs.  A file that is not there stands for the empty catalog,
and saving makes the directories above the file.
-/

namespace SelectorMangling.Catalog

inductive StoreCause where
  | file (fault : FileFault)
  | format (error : FormatError)
deriving DecidableEq, Repr

/-- A catalog file that is not read or written, and why. -/
structure StoreFault where
  path : Path
  cause : StoreCause
deriving DecidableEq, Repr

def StoreFault.chain (fault : StoreFault) : List Reason :=
  let cause :=
    match fault.cause with
    | .file cause => Reason.stated cause.message
    | .format (.json cause) => Reason.json cause
    | .format cause => Reason.stated cause.message
  [.stated s!"file {fault.path.quoted}", cause]

def load (tree : FileTree) (path : Path) : Except StoreFault Catalog :=
  if tree.exists? path then
    match tree.readText path with
    | .error fault => .error ⟨path, .file fault⟩
    | .ok text => (parse text).mapError fun error => ⟨path, .format error⟩
  else
    .ok empty

def save (catalog : Catalog) (tree : FileTree) (path : Path) : FileTree × Except StoreFault Unit :=
  match tree.makeParents path with
  | .error fault => (tree, .error ⟨path, .file fault⟩)
  | .ok larger =>
    match larger.writeText path catalog.render with
    | .error fault => (larger, .error ⟨path, .file fault⟩)
    | .ok written => (written, .ok ())

end SelectorMangling.Catalog
