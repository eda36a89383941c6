import SelectorMangling.FileTree.Resolve

/-!
# Reading and writing files

Files are read as texts, so that bytes that are no UTF-8 are an error.  Writing replaces the content
of a file or makes the file; it never makes directories.
-/

namespace SelectorMangling.FileTree

def readText (tree : FileTree) (path : Path) : Except FileFault String := do
  let (_, entry) ← tree.find path
  match entry with
  | .file content =>
    match String.fromUTF8? content with
    | some text => return text
    | none => .error .notText
  | _ => .error .isDirectory

/-- Writes bytes to the file that a path leads to.  A path that ends in a separator names no
file. -/
def writeBytes (tree : FileTree) (path : Path) (content : ByteArray) :
    Except FileFault FileTree := do
  let endsInSeparator := path.text.toList.getLast? == some '/'
  if endsInSeparator then
    let _ ← tree.resolve false (Path.ofComponents path.components)
    .error .isDirectory
  else
    match ← tree.resolve true path with
    | .found location (.file _) => return tree.set location (.file content)
    | .found _ _ => .error .isDirectory
    | .vacant location => return tree.set location (.file content)

def writeText (tree : FileTree) (path : Path) (text : String) : Except FileFault FileTree :=
  tree.writeBytes path text.toUTF8

/-- Makes the directory at a path, in a directory that is there. -/
def makeDirectory (tree : FileTree) (path : Path) : Except FileFault FileTree := do
  match ← tree.resolve false path with
  | .found _ _ => .error .alreadyExists
  | .vacant location => return tree.set location .directory

/-- Makes a directory unless the path leads to one already. -/
def ensureDirectory (tree : FileTree) (path : Path) : Except FileFault FileTree :=
  match tree.makeDirectory path with
  | .ok larger => .ok larger
  | .error fault => if tree.isDirectory path then .ok tree else .error fault

/-- Makes the directory with the given components, nearest first, and those above it that are
missing. -/
def makeDirectoriesAt (tree : FileTree) : List Path.Component → Except FileFault FileTree
  | [] => .ok tree
  | component :: above =>
    let path := Path.ofComponents (component :: above).reverse
    match tree.makeDirectory path with
    | .ok larger => .ok larger
    | .error .notFound => do (← tree.makeDirectoriesAt above).ensureDirectory path
    | .error fault => if tree.isDirectory path then .ok tree else .error fault

def makeDirectories (tree : FileTree) (path : Path) : Except FileFault FileTree :=
  tree.makeDirectoriesAt path.components.reverse

def makeParents (tree : FileTree) (path : Path) : Except FileFault FileTree :=
  match path.parent? with
  | none => .ok tree
  | some directory => tree.makeDirectories directory

/-- Makes a symbolic link at a path where nothing is yet. -/
def makeLink (tree : FileTree) (path target : Path) : Except FileFault FileTree := do
  match ← tree.resolve false path with
  | .found _ _ => .error .alreadyExists
  | .vacant location => return tree.set location (.link target)

/-- Removes what stands at a path, and everything below it. -/
def removeAll (tree : FileTree) (path : Path) : Except FileFault FileTree := do
  let (location, _) ← tree.findLink path
  return tree.remove location

/-- The files of a tree that another one lacks or holds with other bytes, by their paths in
order. -/
def changedFiles (old new : FileTree) : List (Path × ByteArray) :=
  let changed := new.entries.filterMap fun entry =>
    match entry.2 with
    | .file content =>
      if old.entryAt entry.1 == some (.file content) then none else some (pathOf entry.1, content)
    | _ => none
  changed.mergeSort fun left right => left.1.text ≤ right.1.text

end SelectorMangling.FileTree
