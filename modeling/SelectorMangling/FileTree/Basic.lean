import SelectorMangling.Assoc
import SelectorMangling.Path.Basic

/-!
# File trees

A file tree is what a run reads and writes: files, directories and symbolic links at their
locations below the root, and the directory that relative paths start from.
-/

namespace SelectorMangling

/-- The names that lead from the root to an entry. -/
abbrev Location := List String

inductive Entry where
  | file (content : ByteArray)
  | directory
  | link (target : Path)
deriving BEq

namespace Entry

/-- Whether an entry is a directory itself, not a link to one. -/
def isDirectory : Entry → Bool
  | directory => true
  | _ => false

def isFile : Entry → Bool
  | file _ => true
  | _ => false

end Entry

/-- The entries below the root by their locations, and the current directory. -/
structure FileTree where
  entries : List (Location × Entry) := []
  current : Location := []
  locations_nodup : (entries.map Prod.fst).Nodup := by simp

namespace FileTree

def empty : FileTree where

instance : Inhabited FileTree := ⟨empty⟩

/-- The entry at a location.  The root is always a directory. -/
def entryAt (tree : FileTree) (location : Location) : Option Entry :=
  if location.isEmpty then some .directory else tree.entries.lookup location

def set (tree : FileTree) (location : Location) (entry : Entry) : FileTree :=
  { tree with
    entries := Assoc.set location entry tree.entries
    locations_nodup := Assoc.nodup_keys_set tree.locations_nodup }

/-- Removes an entry and everything below it. -/
def remove (tree : FileTree) (location : Location) : FileTree :=
  { tree with
    entries := tree.entries.filter fun entry => !location.isPrefixOf entry.1
    locations_nodup := Assoc.nodup_keys_filter _ tree.locations_nodup }

/-- The names of the entries of a directory, with the entries, in no particular order. -/
def children (tree : FileTree) (location : Location) : List (String × Entry) :=
  tree.entries.filterMap fun entry =>
    match entry.1.getLast? with
    | some name => if entry.1.dropLast = location then some (name, entry.2) else none
    | none => none

def pathOf (location : Location) : Path :=
  Path.ofComponents (.root :: location.map Path.Component.name)

def currentPath (tree : FileTree) : Path := pathOf tree.current

/-- An entry that is put at a location below the root is found there. -/
theorem entryAt_set_self (tree : FileTree) {location : Location} (entry : Entry)
    (hbelow : location ≠ []) : (tree.set location entry).entryAt location = some entry := by
  simp [entryAt, set, hbelow, Assoc.lookup_set_self]

theorem entryAt_set_of_ne (tree : FileTree) {location other : Location} (entry : Entry)
    (hne : other ≠ location) : (tree.set location entry).entryAt other = tree.entryAt other := by
  simp [entryAt, set, Assoc.lookup_set_of_ne hne]

end FileTree

end SelectorMangling
