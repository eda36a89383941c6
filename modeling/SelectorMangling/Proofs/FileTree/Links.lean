import SelectorMangling.Proofs.FileTree.Bare

/-!
# Paths that end in links

Whether a link at the end of a path is followed matters only for a path that ends in one.  A walk
follows no link but the one that it may begin at.
-/

namespace SelectorMangling.FileTree

variable {tree : FileTree} {path root : Path} {location : Location} {entry : Entry}

/-- Whether a path ends in a link. -/
def IsLink (tree : FileTree) (path : Path) : Prop :=
  ∃ location target, tree.findLink path = .ok (location, .link target)

theorem findLink_of_resolve (hresolve : tree.resolve false path = .ok (.found location entry)) :
    tree.findLink path = .ok (location, entry) := by
  rw [findLink, hresolve]
  rfl

theorem resolve_of_findLink (hfind : tree.findLink path = .ok (location, entry)) :
    tree.resolve false path = .ok (.found location entry) := by
  unfold findLink at hfind
  cases hresolve : tree.resolve false path with
  | error fault => simp [hresolve, bind, Except.bind] at hfind
  | ok target =>
    cases target with
    | found place found =>
      simp only [hresolve, bind, Except.bind, pure, Except.pure, Except.ok.injEq,
        Prod.mk.injEq] at hfind
      rw [hfind.1, hfind.2]
    | vacant place => simp [hresolve, bind, Except.bind] at hfind

/-- What a path leads to is found without following a link at its end, unless it ends in one. -/
theorem findLink_of_find (hfind : tree.find path = .ok (location, entry)) :
    tree.findLink path = .ok (location, entry) ∨ tree.IsLink path := by
  obtain ⟨hsome, hleads⟩ := resolve_eq_ok_iff_leads.mp (find_eq_ok_iff.mp hfind)
  rcases hleads.unfollowed with hsame | ⟨place, target, hlink⟩
  · exact .inl (findLink_of_resolve (resolve_eq_ok_iff_leads.mpr ⟨hsome, hsame⟩))
  · exact .inr ⟨place, target, findLink_of_resolve (resolve_eq_ok_iff_leads.mpr ⟨hsome, hlink⟩)⟩

theorem find_of_findLink (hentry : ∀ target, entry ≠ .link target)
    (hfind : tree.findLink path = .ok (location, entry)) :
    tree.find path = .ok (location, entry) := by
  obtain ⟨hsome, hleads⟩ := resolve_eq_ok_iff_leads.mp (resolve_of_findLink hfind)
  refine find_eq_ok_iff.mpr (resolve_eq_ok_iff_leads.mpr ⟨hsome, hleads.followed ?_⟩)
  intro place goal htarget
  exact hentry goal (Target.found.inj htarget).2

theorem exists_find_of_isDirectory (hdirectory : tree.isDirectory path = true) :
    ∃ location, tree.find path = .ok (location, .directory) := by
  rw [isDirectory] at hdirectory
  split at hdirectory
  · next location entry hfind =>
    rw [Entry.eq_directory_of_isDirectory hdirectory] at hfind
    exact ⟨location, hfind⟩
  · contradiction

/-- A walk that begins at a link visits what lies below the directory that the link leads to. -/
theorem walk_of_link {target : Path} {base : Location}
    (hlink : tree.findLink root = .ok (location, .link target))
    (hfind : tree.find root = .ok (base, .directory)) (admits : String → Bool) :
    tree.walk admits root = .ok (tree.directoriesBelow admits base) := by
  rw [walk, hlink]
  simp only [bind, Except.bind, hfind, pure, Except.pure, Entry.isDirectory, if_true]

theorem walk_of_directory {base : Location} (hroot : tree.findLink root = .ok (base, .directory))
    (admits : String → Bool) :
    tree.walk admits root = .ok ([] :: tree.directoriesBelow admits base) := by
  rw [walk, hroot]
  rfl

/-- A walk visits the directory that it begins at unless its path ends in a link.  What lies below
is visited in any case. -/
theorem walk_of_find {base : Location} (hfind : tree.find root = .ok (base, .directory))
    (admits : String → Bool) :
    (¬tree.IsLink root ∧ tree.walk admits root = .ok ([] :: tree.directoriesBelow admits base)) ∨
      tree.IsLink root ∧ tree.walk admits root = .ok (tree.directoriesBelow admits base) := by
  by_cases hlink : tree.IsLink root
  · obtain ⟨location, target, hfound⟩ := hlink
    exact .inr ⟨⟨location, target, hfound⟩, walk_of_link hfound hfind admits⟩
  · exact .inl ⟨hlink, walk_of_directory ((findLink_of_find hfind).resolve_right hlink) admits⟩

theorem exists_walk_of_isDirectory (hdirectory : tree.isDirectory root = true)
    (admits : String → Bool) :
    ∃ base,
      (¬tree.IsLink root ∧ tree.walk admits root = .ok ([] :: tree.directoriesBelow admits base)) ∨
        tree.IsLink root ∧ tree.walk admits root = .ok (tree.directoriesBelow admits base) := by
  obtain ⟨base, hfind⟩ := exists_find_of_isDirectory hdirectory
  exact ⟨base, walk_of_find hfind admits⟩

end SelectorMangling.FileTree
