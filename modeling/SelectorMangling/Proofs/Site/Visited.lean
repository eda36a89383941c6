import SelectorMangling.Proofs.FileTree.Below
import SelectorMangling.Proofs.Path.Order
import SelectorMangling.Proofs.Site.Order
import SelectorMangling.Proofs.Site.RootFolder

/-!
# Which directories are feature folders

A directory of a locale is visited if it is that of the locale, or if it lies in one that is visited
and has a name that is neither hidden nor skipped.  Links are not visited.  The feature folders are
the visited directories with an index file, each once, in the order of their paths.
-/

namespace SelectorMangling.Site

open FileTree

variable {tree : FileTree} {settings : Settings} {root directory : Path} {base location : Location}

/-- A directory of a locale is visited, and a location is where it stands. -/
inductive IsVisited (tree : FileTree) (settings : Settings) (root : Path) (base : Location) :
    Path → Location → Prop
  | root : IsVisited tree settings root base root base
  | child {directory : Path} {location : Location} {name : String}
      (habove : IsVisited tree settings root base directory location)
      (hentry : tree.entryAt (location ++ [name]) = some .directory)
      (hshown : name.toList.head? ≠ some '.') (hkept : name ∉ settings.skipDirs) :
      IsVisited tree settings root base (directory.child name) (location ++ [name])

theorem isSearched_iff {name : String} :
    isSearched settings name = true ↔
      name.toList.head? ≠ some '.' ∧ name ∉ settings.skipDirs := by
  simp [isSearched]

/-- The visited directories are those that names lead to from the directory of the locale. -/
theorem isVisited_iff :
    IsVisited tree settings root base directory location ↔
      ∃ names, tree.isReached (isSearched settings) base names = true ∧
        directory = below root names ∧ location = base ++ names := by
  constructor
  · intro hvisited
    induction hvisited with
    | root => exact ⟨[], rfl, rfl, (List.append_nil base).symm⟩
    | @child _ _ name _ hentry hshown hkept ih =>
      obtain ⟨names, hreached, rfl, rfl⟩ := ih
      refine ⟨names ++ [name], ?_, ?_, List.append_assoc _ _ _⟩
      · exact isReached_concat_iff.mpr ⟨hreached, isSearched_iff.mpr ⟨hshown, hkept⟩, hentry⟩
      · rw [below, below, List.foldl_concat]
  · rintro ⟨names, hreached, rfl, rfl⟩
    induction names using List.reverseRecOn with
    | nil =>
      rw [List.append_nil]
      exact .root
    | append_singleton names name ih =>
      obtain ⟨habove, hsearched, hentry⟩ := isReached_concat_iff.mp hreached
      obtain ⟨hshown, hkept⟩ := isSearched_iff.mp hsearched
      rw [below, List.foldl_concat, ← List.append_assoc]
      exact (ih habove).child hentry hshown hkept

theorem mem_visited_iff_isVisited :
    directory ∈ ([] :: tree.directoriesBelow (isSearched settings) base).map (below root) ↔
      ∃ location, IsVisited tree settings root base directory location := by
  rw [List.mem_map]
  constructor
  · rintro ⟨names, hnames, rfl⟩
    exact ⟨base ++ names, isVisited_iff.mpr ⟨names, IsRoot.mem_visited_iff.mp hnames, rfl, rfl⟩⟩
  · rintro ⟨location, hvisited⟩
    obtain ⟨names, hreached, rfl, -⟩ := isVisited_iff.mp hvisited
    exact ⟨names, IsRoot.mem_visited_iff.mpr hreached, rfl⟩

section Named

variable (hnamed : tree.HasEntryNames) (hroot : tree.findLink root = .ok (base, .directory))
include hnamed hroot

/-- What is visited is a directory and no link to one. -/
theorem IsVisited.findLink_eq (hvisited : IsVisited tree settings root base directory location) :
    tree.findLink directory = .ok (location, .directory) := by
  induction hvisited with
  | root => exact hroot
  | @child directory location name _ hentry _ _ ih =>
    have hname : IsEntryName name := hnamed _ _ hentry name (by simp)
    have hlink : ∀ target, tree.entryAt (location ++ [name]) ≠ some (.link target) := by
      simp [hentry]
    apply findLink_of_resolve
    rw [resolve_child (find_of_findLink (by simp) ih) hname hlink, targetAt, hentry]

/-- The directories come in the order of their paths. -/
theorem pairwise_before_visited (settings : Settings) :
    (([] :: tree.directoriesBelow (isSearched settings) base).map (below root)).Pairwise
      Path.Before := by
  have hsome := text_ne_empty_of_resolve (resolve_of_findLink hroot)
  rw [List.pairwise_map]
  apply (IsRoot.pairwise_visited tree (isSearched settings) base).imp_of_mem
  intro left right hleft hright hlt
  exact Path.before_foldl_child hsome (hnamed.of_isReached (IsRoot.mem_visited_iff.mp hleft))
    (hnamed.of_isReached (IsRoot.mem_visited_iff.mp hright)) hlt

/-- The feature folders of a locale that is a directory and no link are the visited directories with
an index file, in the order of their paths. -/
theorem feature_folders_exact (settings : Settings) :
    ∃ folders, featureFolders tree settings root = .ok folders ∧
      folders.Pairwise Path.Before ∧ folders.Nodup ∧
      (∀ folder, folder ∈ folders ↔
        (∃ location, IsVisited tree settings root base folder location) ∧
          tree.isFile (folder.join ⟨settings.indexFile⟩) = true) ∧
      ∀ folder location, IsVisited tree settings root base folder location →
        tree.findLink folder = .ok (location, .directory) := by
  have hordered := (pairwise_before_visited hnamed hroot settings).filter (hasIndex tree settings)
  refine ⟨_, featureFolders_of_walk (walk_of_directory hroot _), hordered,
    hordered.imp Path.Before.ne, ?_, fun _ _ => IsVisited.findLink_eq hnamed hroot⟩
  intro folder
  rw [List.mem_filter, mem_visited_iff_isVisited]
  rfl

end Named

/-- A locale with a page below a directory that has none, with a page that is a link, with a link to a
directory, and with pages in directories that are hidden or skipped. -/
def shelvedTree : FileTree where
  entries :=
    [(["l"], .directory), (["l", "i"], .file .empty), (["l", "a"], .directory),
     (["l", "a", "b"], .directory), (["l", "a", "b", "i"], .file .empty),
     (["l", "a-"], .directory), (["l", "a-", "i"], .link ⟨"../i"⟩),
     (["l", "k"], .link ⟨"a/b"⟩), (["l", ".h"], .directory), (["l", ".h", "i"], .file .empty),
     (["l", "a", "media"], .directory), (["l", "a", "media", "i"], .file .empty)]
  locations_nodup := by
    change [["l"], ["l", "i"], ["l", "a"], ["l", "a", "b"], ["l", "a", "b", "i"], ["l", "a-"],
      ["l", "a-", "i"], ["l", "k"], ["l", ".h"], ["l", ".h", "i"], ["l", "a", "media"],
      ["l", "a", "media", "i"]].Nodup
    decide

/-- The page below another directory comes before the directory with the longer name, though not by
the texts of the paths. -/
theorem feature_folders_exact_shelvedTree :
    shelvedTree.HasEntryNames ∧ shelvedTree.findLink ⟨"/l"⟩ = .ok (["l"], .directory) ∧
      featureFolders shelvedTree pageSettings ⟨"/l"⟩ =
        .ok [⟨"/l"⟩, ⟨"/l/a/b"⟩, ⟨"/l/a-"⟩] ∧
      [⟨"/l"⟩, ⟨"/l/a/b"⟩, ⟨"/l/a-"⟩].Pairwise Path.Before ∧ "/l/a-" < "/l/a/b" ∧
      ∃ location, IsVisited shelvedTree pageSettings ⟨"/l"⟩ ["l"] ⟨"/l/a/b"⟩ location := by
  have hnamed : shelvedTree.HasEntryNames := by decide +kernel
  have hroot : shelvedTree.findLink ⟨"/l"⟩ = .ok (["l"], .directory) :=
    findLink_of_resolve (resolve_of_resolveWithin 3 rfl)
  have hbelow : shelvedTree.directoriesBelow (isSearched pageSettings) ["l"] =
      [["a"], ["a", "b"], ["a-"]] := by
    rw [FileTree.directoriesBelow, List.mergeSort_of_pairwise (by decide +kernel)]
    decide +kernel
  have hpaths : ([] :: [["a"], ["a", "b"], ["a-"]]).map (below ⟨"/l"⟩) =
      [⟨"/l"⟩, ⟨"/l/a"⟩, ⟨"/l/a/b"⟩, ⟨"/l/a-"⟩] := by decide +kernel
  have hindex : [⟨"/l"⟩, ⟨"/l/a"⟩, ⟨"/l/a/b"⟩, ⟨"/l/a-"⟩].map (Path.join · ⟨"i"⟩) =
      [⟨"/l/i"⟩, ⟨"/l/a/i"⟩, ⟨"/l/a/b/i"⟩, ⟨"/l/a-/i"⟩] := by decide +kernel
  have hmain : shelvedTree.isFile ⟨"/l/i"⟩ = true := isFile_of_find (find_of_resolveWithin 4 rfl)
  have hnone : shelvedTree.isFile ⟨"/l/a/i"⟩ = false :=
    not_isFile_of_vacant (resolve_of_resolveWithin 5 rfl)
  have hpage : shelvedTree.isFile ⟨"/l/a/b/i"⟩ = true :=
    isFile_of_find (find_of_resolveWithin 6 rfl)
  have hlink : shelvedTree.isFile ⟨"/l/a-/i"⟩ = true :=
    isFile_of_find (find_of_resolveWithin 7 rfl)
  have hfolders : featureFolders shelvedTree pageSettings ⟨"/l"⟩ =
      .ok [⟨"/l"⟩, ⟨"/l/a/b"⟩, ⟨"/l/a-"⟩] := by
    simp only [List.map_cons, List.map_nil, List.cons.injEq, and_true] at hindex
    rw [featureFolders_of_walk (walk_of_directory hroot _), hbelow, hpaths]
    simp [hasIndex, pageSettings, hindex, hmain, hnone, hpage, hlink]
  obtain ⟨folders, hexact, hordered, -, hmem, -⟩ :=
    feature_folders_exact hnamed hroot pageSettings
  obtain rfl := Except.ok.inj (hfolders.symm.trans hexact)
  exact ⟨hnamed, hroot, hfolders, hordered, by decide +kernel, ((hmem _).mp (by simp)).1⟩

end SelectorMangling.Site
