import SelectorMangling.FileTree.Walk
import SelectorMangling.Settings.Basic
import SelectorMangling.Site.Event

/-!
# Feature folders

The feature folders of a locale are its directory and the directories below it that hold an index
file.  Hidden directories and those of the settings' skip list are not searched; the directory of
the locale itself is, whatever its name is.
-/

namespace SelectorMangling.Site

def isSearched (settings : Settings) (name : String) : Bool :=
  name.toList.head? != some '.' && !settings.skipDirs.contains name

def below (root : Path) (names : List String) : Path := names.foldl Path.child root

def hasIndex (tree : FileTree) (settings : Settings) (directory : Path) : Bool :=
  tree.isFile (directory.join ⟨settings.indexFile⟩)

/-- The directories of a locale that are searched, in order. -/
def searchedDirectories (tree : FileTree) (settings : Settings) (root : Path) :
    Except FileFault (List Path) := do
  return (← tree.walk (isSearched settings) root).map (below root)

/-- The feature folders of a locale, in order. -/
def featureFolders (tree : FileTree) (settings : Settings) (root : Path) :
    Except FileFault (List Path) := do
  return (← searchedDirectories tree settings root).filter (hasIndex tree settings)

/-- What is told about the directories of a locale that are no feature folders. -/
def skippedFolders (tree : FileTree) (settings : Settings) (root : Path) : List Event :=
  match searchedDirectories tree settings root with
  | .error _ => []
  | .ok directories =>
    (directories.filter fun directory => !hasIndex tree settings directory).map fun directory =>
      .skipped directory settings.indexFile

end SelectorMangling.Site
