import Mathlib.Tactic.SplitIfs
import SelectorMangling.FileTree.Content
import SelectorMangling.FileTree.Walk
import SelectorMangling.Proofs.FileTree.Leads

/-!
# File trees without contents

Where a path leads depends on the directories, the links and the names of the files, never on what
the files hold.  The bare tree has the same entries with nothing in the files.
-/

namespace SelectorMangling

/-- An entry with nothing in it if it is a file. -/
def Entry.bare : Entry → Entry
  | .file _ => .file .empty
  | entry => entry

@[simp]
theorem Entry.isDirectory_bare (entry : Entry) : entry.bare.isDirectory = entry.isDirectory := by
  cases entry <;> rfl

@[simp]
theorem Entry.isFile_bare (entry : Entry) : entry.bare.isFile = entry.isFile := by
  cases entry <;> rfl

theorem Entry.exists_file_of_bare {entry : Entry} {content : ByteArray}
    (hbare : entry.bare = Entry.bare (.file content)) : ∃ new, entry = .file new := by
  cases entry with
  | file new => exact ⟨new, rfl⟩
  | directory => contradiction
  | link target => contradiction

theorem Entry.eq_directory_of_isDirectory {entry : Entry} (hdirectory : entry.isDirectory = true) :
    entry = .directory := by
  cases entry with
  | directory => rfl
  | file content => contradiction
  | link target => contradiction

theorem Entry.exists_file_of_isFile {entry : Entry} (hfile : entry.isFile = true) :
    ∃ content, entry = .file content := by
  cases entry with
  | directory => contradiction
  | file content => exact ⟨content, rfl⟩
  | link target => contradiction

theorem Entry.eq_of_bare_eq {left right : Entry} (hbare : left.bare = right.bare)
    (hright : ∀ content, right ≠ .file content) : left = right := by
  cases right with
  | file content => exact absurd rfl (hright content)
  | directory =>
    cases left with
    | directory => rfl
    | file content => contradiction
    | link target => contradiction
  | link target =>
    cases left with
    | directory => contradiction
    | file content => contradiction
    | link other => simpa [bare] using hbare

namespace FileTree

/-- A target with nothing in it if it is a file. -/
def Target.bare : Target → Target
  | .found location entry => .found location entry.bare
  | .vacant location => .vacant location

/-- The tree with nothing in its files. -/
def bare (tree : FileTree) : FileTree where
  entries := tree.entries.map fun entry => (entry.1, entry.2.bare)
  current := tree.current
  locations_nodup := by
    rw [List.map_map]
    exact tree.locations_nodup

theorem entryAt_bare (tree : FileTree) (location : Location) :
    tree.bare.entryAt location = (tree.entryAt location).map Entry.bare := by
  unfold entryAt
  split
  · rfl
  · exact Assoc.lookup_map_value Entry.bare location tree.entries

/-- Where the bare tree has a file, the tree has one. -/
theorem exists_file_of_entryAt_bare {tree : FileTree} {location : Location} {content : ByteArray}
    (hbare : tree.bare.entryAt location = some (Entry.bare (.file content))) :
    ∃ new, tree.entryAt location = some (.file new) := by
  rw [entryAt_bare, Option.map_eq_some_iff] at hbare
  obtain ⟨found, hfound, hsame⟩ := hbare
  obtain ⟨new, rfl⟩ := Entry.exists_file_of_bare hsame
  exact ⟨new, hfound⟩

theorem bare_set (tree : FileTree) (location : Location) (entry : Entry) :
    (tree.set location entry).bare = tree.bare.set location entry.bare := by
  simp only [bare, set, mk.injEq, and_true]
  exact Assoc.map_value_set Entry.bare location entry tree.entries

/-- Replacing the content of a file leaves the bare tree. -/
theorem bare_set_file {tree : FileTree} {location : Location} {old : ByteArray}
    (hfile : tree.entryAt location = some (.file old)) (content : ByteArray) :
    (tree.set location (.file content)).bare = tree.bare := by
  have hbare : tree.bare.entryAt location = some (.file .empty) := by
    rw [entryAt_bare, hfile]
    rfl
  rw [bare_set]
  simp only [entryAt] at hbare
  split at hbare
  · simp at hbare
  · simp only [set, Entry.bare, Assoc.set_eq_self hbare]

/-- Paths lead to the same places in the bare tree. -/
theorem follow_bare (tree : FileTree) (followLast : Bool) (links : Nat) (directory : Location)
    (steps : List String) :
    tree.bare.follow followLast links directory steps =
      (tree.follow followLast links directory steps).map Target.bare := by
  -- Both sides take the same branch: what a branch looks at is the same in an entry and its bare.
  fun_induction FileTree.follow tree followLast links directory steps <;> rw [follow] <;>
    simp_all +zetaDelta [entryAt_bare, Except.map, Target.bare, Entry.bare]

theorem resolve_bare (tree : FileTree) (followLast : Bool) (path : Path) :
    tree.bare.resolve followLast path = (tree.resolve followLast path).map Target.bare := by
  simp only [resolve, follow_bare]
  split
  · rfl
  · rfl

theorem find_bare (tree : FileTree) (path : Path) :
    tree.bare.find path = (tree.find path).map fun found => (found.1, found.2.bare) := by
  simp only [find, resolve_bare]
  cases tree.resolve true path with
  | error fault => rfl
  | ok target => cases target <;> rfl

theorem findLink_bare (tree : FileTree) (path : Path) :
    tree.bare.findLink path = (tree.findLink path).map fun found => (found.1, found.2.bare) := by
  simp only [findLink, resolve_bare]
  cases tree.resolve false path with
  | error fault => rfl
  | ok target => cases target <;> rfl

/-- A file that a path leads to stands at its location. -/
theorem entryAt_of_resolve {tree : FileTree} {followLast : Bool} {path : Path}
    {location : Location} {content : ByteArray}
    (hresolve : tree.resolve followLast path = .ok (.found location (.file content))) :
    tree.entryAt location = some (.file content) :=
  (resolve_eq_ok_iff_leads.mp hresolve).2.isAt

theorem find_eq_ok_iff {tree : FileTree} {path : Path} {location : Location} {entry : Entry} :
    tree.find path = .ok (location, entry) ↔
      tree.resolve true path = .ok (.found location entry) := by
  unfold find
  cases tree.resolve true path with
  | error fault => simp [bind, Except.bind]
  | ok target => cases target <;> simp [bind, Except.bind, pure, Except.pure]

theorem find_of_resolveWithin (moves : Nat) {tree : FileTree} {path : Path} {location : Location}
    {entry : Entry} (hfound : tree.resolveWithin true moves path = some (.found location entry)) :
    tree.find path = .ok (location, entry) :=
  find_eq_ok_iff.mpr (resolve_of_resolveWithin moves hfound)

theorem isDirectory_of_find {tree : FileTree} {path : Path} {location : Location}
    (hfind : tree.find path = .ok (location, .directory)) : tree.isDirectory path = true := by
  rw [isDirectory, hfind]
  rfl

theorem isFile_of_find {tree : FileTree} {path : Path} {location : Location} {content : ByteArray}
    (hfind : tree.find path = .ok (location, .file content)) : tree.isFile path = true := by
  rw [isFile, hfind]
  rfl

theorem exists_of_find {tree : FileTree} {path : Path} {location : Location} {entry : Entry}
    (hfind : tree.find path = .ok (location, entry)) : tree.exists? path = true := by
  rw [exists?, hfind]
  rfl

theorem not_exists_of_vacant {tree : FileTree} {path : Path} {location : Location}
    (hresolve : tree.resolve true path = .ok (.vacant location)) : tree.exists? path = false := by
  rw [exists?, find, hresolve]
  rfl

theorem not_isFile_of_vacant {tree : FileTree} {path : Path} {location : Location}
    (hresolve : tree.resolve true path = .ok (.vacant location)) : tree.isFile path = false := by
  rw [isFile, find, hresolve]
  rfl

theorem entryAt_of_find {tree : FileTree} {path : Path} {location : Location} {content : ByteArray}
    (hfind : tree.find path = .ok (location, .file content)) :
    tree.entryAt location = some (.file content) :=
  entryAt_of_resolve (find_eq_ok_iff.mp hfind)

/-- In trees that are the same up to contents a path leads to the same location. -/
theorem exists_find_of_bare_eq {left right : FileTree} (hbare : left.bare = right.bare) {path : Path}
    {location : Location} {entry : Entry} (hfind : left.find path = .ok (location, entry)) :
    ∃ other, right.find path = .ok (location, other) ∧ other.bare = entry.bare := by
  have hsame : right.bare.find path = .ok (location, entry.bare) := by
    rw [← hbare, find_bare, hfind]
    rfl
  rw [find_bare] at hsame
  cases hright : right.find path with
  | error fault => simp [hright, Except.map] at hsame
  | ok found =>
    simp only [hright, Except.map, Except.ok.injEq, Prod.mk.injEq] at hsame
    exact ⟨found.2, by rw [← hsame.1], hsame.2⟩

/-- A path that leads to a file leads to the file in its place in a tree that is the same up to
contents. -/
theorem find_file_of_bare_eq {left right : FileTree} (hbare : left.bare = right.bare) {path : Path}
    {location : Location} {old new : ByteArray}
    (hfind : left.find path = .ok (location, .file old))
    (hentry : right.entryAt location = some (.file new)) :
    right.find path = .ok (location, .file new) := by
  obtain ⟨entry, hfound, hsame⟩ := exists_find_of_bare_eq hbare hfind
  obtain ⟨content, rfl⟩ := Entry.exists_file_of_bare hsame
  rw [hfound, Option.some.inj ((entryAt_of_find hfound).symm.trans hentry)]

/-- In trees that are the same up to contents a path leads to the same entry, if it leads to a file
only when the content is the same too. -/
theorem find_eq_of_bare_eq {left right : FileTree} (hbare : left.bare = right.bare) {path : Path}
    (hcontent : ∀ location content, left.find path = .ok (location, .file content) →
      right.entryAt location = some (.file content)) :
    right.find path = left.find path := by
  cases hleft : left.find path with
  | error fault =>
    cases hright : right.find path with
    | error other =>
      have hsame := find_bare right path
      rw [← hbare, find_bare, hleft, hright] at hsame
      simpa [Except.map, eq_comm] using hsame
    | ok found =>
      obtain ⟨other, hother, -⟩ := exists_find_of_bare_eq hbare.symm hright
      rw [hleft] at hother
      contradiction
  | ok found =>
    obtain ⟨other, hother, hentry⟩ := exists_find_of_bare_eq hbare hleft
    rw [hother]
    obtain ⟨location, entry⟩ := found
    cases entry with
    | file content =>
      obtain ⟨new, rfl⟩ := Entry.exists_file_of_bare hentry
      have hstands := entryAt_of_find hother
      rw [hcontent location content hleft] at hstands
      rw [Option.some.inj hstands]
    | directory => rw [Entry.eq_of_bare_eq hentry (by simp)]
    | link target => rw [Entry.eq_of_bare_eq hentry (by simp)]

theorem isFile_bare (tree : FileTree) (path : Path) : tree.bare.isFile path = tree.isFile path := by
  simp only [isFile, find_bare]
  cases tree.find path with
  | error fault => rfl
  | ok found => exact Entry.isFile_bare found.2

theorem children_bare (tree : FileTree) (location : Location) :
    tree.bare.children location =
      (tree.children location).map fun child => (child.1, child.2.bare) := by
  simp only [children, bare, List.filterMap_map, List.map_filterMap]
  congr 1
  funext entry
  simp only [Function.comp_apply]
  cases entry.1.getLast? with
  | none => rfl
  | some name => split_ifs <;> rfl

theorem isReached_bare (tree : FileTree) (admits : String → Bool) (base : Location)
    (names : List String) :
    tree.bare.isReached admits base names = tree.isReached admits base names := by
  induction names generalizing base with
  | nil => rfl
  | cons name rest ih =>
    simp only [isReached, ih, entryAt_bare]
    cases tree.entryAt (base ++ [name]) with
    | none => rfl
    | some entry => simp

theorem directoriesBelow_bare (tree : FileTree) (admits : String → Bool) (base : Location) :
    tree.bare.directoriesBelow admits base = tree.directoriesBelow admits base := by
  have hreached : tree.bare.isReached admits base = tree.isReached admits base :=
    funext (isReached_bare tree admits base)
  simp only [directoriesBelow, hreached]
  simp only [bare, List.filterMap_map]
  congr 2
  congr 1
  funext entry
  simp

theorem walk_bare (tree : FileTree) (admits : String → Bool) (root : Path) :
    tree.bare.walk admits root = tree.walk admits root := by
  simp only [walk, findLink_bare, find_bare, directoriesBelow_bare]
  cases tree.findLink root with
  | error fault => rfl
  | ok found =>
    obtain ⟨location, entry⟩ := found
    cases entry with
    | directory => rfl
    | file content => rfl
    | link target =>
      cases tree.find root with
      | error fault => rfl
      | ok found =>
        change Except.ok (if found.2.bare.isDirectory then _ else _) = _
        rw [Entry.isDirectory_bare]
        rfl

end FileTree

end SelectorMangling
