import SelectorMangling.FileTree.Content
import SelectorMangling.Proofs.FileTree.Listing

/-!
# Trees that are listed in another order

The entries of a tree may be listed in any order.  What stands at a location does not depend on it,
and neither does what a path leads to.
-/

namespace SelectorMangling.FileTree

/-- Trees hold the same entries, in whatever order they are listed. -/
structure SameEntries (left right : FileTree) : Prop where
  perm : left.entries.Perm right.entries
  current_eq : left.current = right.current

namespace SameEntries

variable {left right : FileTree} (hsame : SameEntries left right)
include hsame

theorem entryAt_eq : left.entryAt = right.entryAt := by
  funext location
  by_cases hbelow : location = []
  · rw [hbelow]
    rfl
  · apply Option.ext
    intro entry
    rw [← mem_entries_iff hbelow, hsame.perm.mem_iff, mem_entries_iff hbelow]

/-! ## What paths lead to -/

theorem follow_eq (followLast : Bool) (links : Nat) (directory : Location) (steps : List String) :
    left.follow followLast links directory steps =
      right.follow followLast links directory steps := by
  have hentries := hsame.entryAt_eq
  -- Both trees take the same branch, since they have the same entry at every location.
  fun_induction left.follow followLast links directory steps <;> rw [follow] <;>
    simp_all +zetaDelta

theorem resolve_eq (followLast : Bool) (path : Path) :
    left.resolve followLast path = right.resolve followLast path := by
  rw [resolve, resolve, hsame.current_eq]
  simp only [hsame.follow_eq]

theorem find_eq : left.find = right.find := by
  funext path
  rw [find, find, hsame.resolve_eq]

theorem findLink_eq : left.findLink = right.findLink := by
  funext path
  rw [findLink, findLink, hsame.resolve_eq]

theorem isFile_eq : left.isFile = right.isFile := by
  funext path
  rw [isFile, isFile, hsame.find_eq]

theorem readText_eq : left.readText = right.readText := by
  funext path
  rw [readText, readText, hsame.find_eq]

/-! ## What is listed -/

theorem isReached_eq (admits : String → Bool) (base : Location) :
    left.isReached admits base = right.isReached admits base := by
  funext names
  exact isReached_congr (fun location _ => by rw [hsame.entryAt_eq]) admits names

theorem mem_directoriesBelow_iff {admits : String → Bool} {base : Location}
    {names : List String} :
    names ∈ left.directoriesBelow admits base ↔ names ∈ right.directoriesBelow admits base := by
  rw [FileTree.mem_directoriesBelow_iff, FileTree.mem_directoriesBelow_iff,
    hsame.isReached_eq admits base]

end SameEntries

end SelectorMangling.FileTree
