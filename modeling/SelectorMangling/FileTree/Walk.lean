import SelectorMangling.FileTree.Resolve

/-!
# Walking directories

A walk visits the directories below a root, parents before their children and siblings by name.
Directories with names that it does not admit are left out with all that is below them, and links
are never followed.  Read as lists of names, the directories come in lexicographic order.
-/

namespace SelectorMangling.FileTree

/-- Whether names lead from a directory through admitted directories only. -/
def isReached (tree : FileTree) (admits : String → Bool) (base : Location) :
    List String → Bool
  | [] => true
  | name :: rest =>
    let location := base ++ [name]
    admits name && (tree.entryAt location).any Entry.isDirectory &&
      tree.isReached admits location rest

/-- The names that lead from a directory to the admitted directories below it, in order. -/
def directoriesBelow (tree : FileTree) (admits : String → Bool) (base : Location) :
    List (List String) :=
  let below := tree.entries.filterMap fun entry =>
    if entry.2.isDirectory && base.isPrefixOf entry.1 && entry.1 != base then
      some (entry.1.drop base.length)
    else none
  (below.filter (tree.isReached admits base)).mergeSort fun left right => !right.lex left

/-- The names that lead from the root of a walk to the directories that it visits.  The root is
visited whatever its name is, but not if it is a link; what a linked root leads to is walked all
the same.  A root that is no directory has nothing to visit. -/
def walk (tree : FileTree) (admits : String → Bool) (root : Path) :
    Except FileFault (List (List String)) := do
  let (location, entry) ← tree.findLink root
  match entry with
  | .directory => return [] :: tree.directoriesBelow admits location
  | .file _ => return []
  | .link _ =>
    let (location, entry) ← tree.find root
    return if entry.isDirectory then tree.directoriesBelow admits location else []

end SelectorMangling.FileTree
