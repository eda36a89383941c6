import SelectorMangling.FileTree.Resolve
import SelectorMangling.SourceKind

/-!
# Source files

The files of a feature folder that may hold selectors.  Scripts come first, since the styles in them
are what pages and stylesheets refer to; files of the same group come by name.
-/

namespace SelectorMangling.Site

/-- A file that may hold selectors. -/
structure SourceFile where
  path : Path
  /-- The last component of the path. -/
  name : String
  kind : SourceKind
deriving DecidableEq, Repr

/-- Whether a source file comes before another one of its folder or is the same. -/
def SourceFile.precedes (left right : SourceFile) : Bool :=
  if left.kind = .script ∧ right.kind ≠ .script then true
  else if left.kind ≠ .script ∧ right.kind = .script then false
  else left.name ≤ right.name

/-- The source file that an entry of a folder is, if it is one. -/
def sourceFile? (folder : Path) (name : String) (entry : Entry) : Option SourceFile :=
  if entry.isFile then
    let path := folder.child name
    (SourceKind.ofPath? path).map fun kind => { path, name, kind }
  else
    none

def sourceFiles (tree : FileTree) (folder : Path) : Except FileFault (List SourceFile) := do
  let (location, entry) ← tree.find folder
  if entry.isDirectory then
    let files := (tree.children location).filterMap fun child =>
      sourceFile? folder child.1 child.2
    return files.mergeSort SourceFile.precedes
  else
    .error .notDirectory

end SelectorMangling.Site
