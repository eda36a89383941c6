import Mathlib.Data.List.Sort
import SelectorMangling.Proofs.FileTree.Below
import SelectorMangling.Proofs.FileTree.Furnished
import SelectorMangling.Proofs.Site.Course
import SelectorMangling.Proofs.Site.Order
import SelectorMangling.Proofs.Site.RootFolder

/-!
# What is saved outside a locale

A file is saved outside the directory of a locale, and directories are made where they are missing.
Afterwards the locale has the same feature folders with the same source files, unless a link in the
place of an index file led nowhere before and leads to a file now.
-/

namespace SelectorMangling.Site

open FileTree

variable {settings : Settings} {tree later : FileTree} {root : Path} {base place : Location}

/-- A link in the place of the index file of a directory led nowhere in a tree, and it leads to a file
in a later one. -/
structure MendsIndex (settings : Settings) (tree later : FileTree) (directory : Path) : Prop where
  link : tree.IsLink (directory.child settings.indexFile)
  broken : tree.exists? (directory.child settings.indexFile) = false
  mended : later.isFile (directory.child settings.indexFile) = true

/-! ## Source files of a folder -/

section Folder

variable {folder : Path} {location : Location} (hfurnished : Furnished place tree later)
  (hfolder : tree.find folder = .ok (location, .directory)) (houtside : ¬location <+: place)
include hfurnished hfolder houtside

/-- A folder has the same source files if nothing is put into it but directories. -/
theorem filesIn_of_furnished : filesIn later folder = filesIn tree folder := by
  apply filesIn_eq_of_entryAt hfolder (hfurnished.written.find_directory hfolder)
  intro name content
  rw [hfurnished.entryAt_file_iff]
  rintro rfl
  exact houtside (List.prefix_append _ _)

/-- They hold the same texts. -/
theorem readSource_of_furnished (hnamed : tree.HasEntryNames) {file : SourceFile}
    (hfile : file ∈ filesIn tree folder) :
    readSource later file = readSource tree file := by
  obtain ⟨name, content, kind, hentry, -, rfl⟩ := (mem_filesIn_of_find hfolder).mp hfile
  have hname : IsEntryName name := hnamed _ _ hentry name (by simp)
  have hne : location ++ [name] ≠ place := by
    rintro rfl
    exact houtside (List.prefix_append _ _)
  have hlater := find_child (hfurnished.written.find_directory hfolder) hname
    ((hfurnished.entryAt_file_iff hne).mpr hentry) (by simp)
  have hbefore := find_child hfolder hname hentry (by simp)
  rw [readSource, readSource, readText, readText, hlater, hbefore]

end Folder

/-! ## Feature folders -/

/-- What a walk visits is reached, whether it visits the directory that it begins at or not. -/
theorem isReached_of_mem_visited {admits : String → Bool} {own : List (List String)}
    (hown : own = [] ∨ own = [[]]) {names : List String}
    (hnames : names ∈ own ++ tree.directoriesBelow admits base) :
    tree.isReached admits base names = true := by
  rcases List.mem_append.mp hnames with hfirst | hbelow
  · rcases hown with rfl | rfl
    · contradiction
    · rw [List.mem_singleton.mp hfirst]
      rfl
  · exact (mem_directoriesBelow_iff.mp hbelow).2

theorem mem_visited_of_isReached {admits : String → Bool} {own : List (List String)}
    {names : List String} (hnames : names ∈ own ++ tree.directoriesBelow admits base)
    (hreached : later.isReached admits base names = true) :
    names ∈ own ++ later.directoriesBelow admits base := by
  rw [List.mem_append, mem_directoriesBelow_iff] at hnames ⊢
  exact hnames.imp_right fun hbelow => ⟨hbelow.1, hreached⟩

theorem pairwise_own_append {own : List (List String)} (hown : own = [] ∨ own = [[]])
    (tree : FileTree) (admits : String → Bool) (base : Location) :
    (own ++ tree.directoriesBelow admits base).Pairwise (· < ·) := by
  apply List.Pairwise.sublist _ (IsRoot.pairwise_visited tree admits base)
  rcases hown with rfl | rfl
  · exact List.sublist_cons_self _ _
  · exact List.Sublist.refl _

section Folders

variable (hsound : tree.IsSound) (hfurnished : Furnished place tree later)
  (hindex : IsEntryName settings.indexFile) (hroot : tree.find root = .ok (base, .directory))
  (houtside : ¬base <+: place)
include hsound hfurnished hindex hroot houtside

/-- Whatever is taken for the index file of a directory of a locale had been there before. -/
theorem exists_entry_of_hasIndex {names : List String}
    (hreached : later.isReached (isSearched settings) base names = true)
    (hhas : hasIndex later settings (below root names) = true) :
    ∃ entry, tree.entryAt (base ++ names ++ [settings.indexFile]) = some entry ∧
      entry ≠ .directory := by
  have hlater := hfurnished.written.isSound hsound
  have hlaterRoot := hfurnished.written.find_directory hroot
  have hfolder := find_foldl_child hlaterRoot (hlater.named.of_isReached hreached) hreached
  have hne : base ++ names ++ [settings.indexFile] ≠ place := by
    rintro rfl
    exact houtside (by simp)
  by_cases hlink : later.IsLink ((below root names).child settings.indexFile)
  · obtain ⟨target, hentry⟩ := (isLink_child_iff hfolder hindex).mp hlink
    exact ⟨_, (hfurnished.entryAt_link_iff hne).mp hentry, by simp⟩
  · obtain ⟨content, hentry⟩ := (isFile_child_iff hfolder hindex hlink).mp hhas
    exact ⟨_, (hfurnished.entryAt_file_iff hne).mp hentry, by simp⟩

/-- A directory of a locale with an index file had been there before, and so had the index file unless
a link for it was broken. -/
theorem hasIndex_of_furnished {names : List String}
    (hreached : later.isReached (isSearched settings) base names = true)
    (hhas : hasIndex later settings (below root names) = true)
    (hunmended : tree.isReached (isSearched settings) base names = true →
      ¬MendsIndex settings tree later (below root names)) :
    tree.isReached (isSearched settings) base names = true ∧
      hasIndex tree settings (below root names) = true := by
  obtain ⟨entry, hentry, hother⟩ :=
    exists_entry_of_hasIndex hsound hfurnished hindex hroot houtside hreached hhas
  have hbefore := hsound.lies _ _ (by rw [hentry]; rfl)
  have hlaterDirectory := hfurnished.written.entryAt_directory hbefore
  have hreachedBefore : tree.isReached (isSearched settings) base names = true := by
    rw [hsound.lies.isReached_iff hbefore]
    exact ((hfurnished.written.isSound hsound).lies.isReached_iff hlaterDirectory).mp hreached
  refine ⟨hreachedBefore, ?_⟩
  have hfolder :=
    find_foldl_child hroot (hsound.named.of_isReached hreachedBefore) hreachedBefore
  by_cases hlink : tree.IsLink ((below root names).child settings.indexFile)
  · cases hexists : tree.exists? ((below root names).child settings.indexFile) with
    | true => exact hfurnished.written.isFile_of_exists hexists hhas
    | false => exact absurd ⟨hlink, hexists, hhas⟩ (hunmended hreachedBefore)
  · apply (isFile_child_iff hfolder hindex hlink).mpr
    cases entry with
    | directory => contradiction
    | file content => exact ⟨content, hentry⟩
    | link target => exact absurd ((isLink_child_iff hfolder hindex).mpr ⟨target, hentry⟩) hlink

/-- The directories with an index file are the same, if no link for one is mended. -/
theorem filter_hasIndex_of_furnished {own : List (List String)} (hown : own = [] ∨ own = [[]])
    (hunmended : ∀ names ∈ own ++ tree.directoriesBelow (isSearched settings) base,
      ¬MendsIndex settings tree later (below root names)) :
    (own ++ later.directoriesBelow (isSearched settings) base).filter
        (fun names => hasIndex later settings (below root names)) =
      (own ++ tree.directoriesBelow (isSearched settings) base).filter
        fun names => hasIndex tree settings (below root names) := by
  apply List.Pairwise.eq_of_mem_iff ((pairwise_own_append hown _ _ _).filter _)
    ((pairwise_own_append hown _ _ _).filter _)
  intro names
  rw [List.mem_filter, List.mem_filter]
  constructor
  · rintro ⟨hvisited, hhas⟩
    have hreached := isReached_of_mem_visited hown hvisited
    obtain ⟨hbefore, hhad⟩ := hasIndex_of_furnished hsound hfurnished hindex hroot houtside
      hreached hhas fun hbefore => hunmended names (mem_visited_of_isReached hvisited hbefore)
    exact ⟨mem_visited_of_isReached hvisited hbefore, hhad⟩
  · rintro ⟨hvisited, hhas⟩
    have hreached := isReached_of_entryAt_mono (fun _ => hfurnished.written.entryAt_directory)
      (isReached_of_mem_visited hown hvisited)
    exact ⟨mem_visited_of_isReached hvisited hreached, hfurnished.written.isFile_of_isFile hhas⟩

end Folders

/-- A locale has the same feature folders if what is saved outside mends no link for an index file of
its directories. -/
theorem featureFolders_of_furnished (hsound : tree.IsSound) (hfurnished : Furnished place tree later)
    (hindex : IsEntryName settings.indexFile)
    (houtside : ∀ base, tree.find root = .ok (base, .directory) → ¬base <+: place)
    (hunmended : ∀ directories, searchedDirectories tree settings root = .ok directories →
      ∀ directory ∈ directories, ¬MendsIndex settings tree later directory)
    {folders : List Path} (hfolders : featureFolders tree settings root = .ok folders) :
    featureFolders later settings root = .ok folders ∧
      ∀ folder ∈ folders, ∃ location, tree.find folder = .ok (location, .directory) ∧
        ¬location <+: place := by
  obtain ⟨directories, hsearched, -⟩ := exists_of_bind_eq_ok hfolders
  obtain ⟨visited, hwalk, hdirectories⟩ := exists_of_bind_eq_ok hsearched
  obtain rfl := Except.ok.inj hdirectories
  by_cases hdirectory : ∃ base, tree.find root = .ok (base, .directory)
  case neg =>
    have hnothing : ∀ later, Written (fun _ => True) tree later →
        later.walk (isSearched settings) root = .ok [] :=
      fun _ => walk_eq_nil_of_written hwalk (not_exists.mp hdirectory)
    rw [featureFolders_of_walk (hnothing tree .refl)] at hfolders
    obtain rfl := Except.ok.inj hfolders
    exact ⟨featureFolders_of_walk (hnothing later hfurnished.written), by simp⟩
  case pos =>
    obtain ⟨base, hroot⟩ := hdirectory
    obtain ⟨own, hown, hwalks⟩ := exists_walk_of_find hroot (isSearched settings)
    have hbase := houtside base hroot
    obtain rfl := Except.ok.inj (hwalk.symm.trans (hwalks tree .refl))
    rw [featureFolders_of_walk hwalk, List.filter_map] at hfolders
    obtain rfl := Except.ok.inj hfolders
    constructor
    · rw [featureFolders_of_walk (hwalks later hfurnished.written), List.filter_map]
      congr 2
      exact filter_hasIndex_of_furnished hsound hfurnished hindex hroot hbase hown
        fun names hnames => hunmended _ hsearched _ (List.mem_map_of_mem hnames)
    · intro folder hfolder
      obtain ⟨names, hnames, rfl⟩ := List.mem_map.mp hfolder
      have hreached := isReached_of_mem_visited hown (List.mem_of_mem_filter hnames)
      have hproper := hsound.named.of_isReached hreached
      refine ⟨base ++ names, find_foldl_child hroot hproper hreached, ?_⟩
      exact fun hprefix => hbase ((List.prefix_append _ _).trans hprefix)

/-- A locale provides the same texts after something has been saved outside. -/
theorem Provides.of_furnished {contents : List (SourceKind × String)}
    (hprovides : Provides tree settings root contents) (hsound : tree.IsSound)
    (hfurnished : Furnished place tree later) (hindex : IsEntryName settings.indexFile)
    (houtside : ∀ base, tree.find root = .ok (base, .directory) → ¬base <+: place)
    (hunmended : ∀ directories, searchedDirectories tree settings root = .ok directories →
      ∀ directory ∈ directories, ¬MendsIndex settings tree later directory) :
    Provides later settings root contents := by
  obtain ⟨⟨folders, hfolders, -⟩, hreads⟩ := hprovides
  obtain ⟨hlater, hplaces⟩ := featureFolders_of_furnished hsound hfurnished hindex houtside
    hunmended hfolders
  have hsources : sources later settings root = sources tree settings root := by
    rw [sources_of_featureFolders hlater, sources_of_featureFolders hfolders]
    apply List.flatMap_congr
    intro folder hfolder
    obtain ⟨location, hfind, hspared⟩ := hplaces folder hfolder
    exact filesIn_of_furnished hfurnished hfind hspared
  refine ⟨⟨folders, hlater, fun folder hfolder => ?_⟩, ?_⟩
  · obtain ⟨location, hfind, -⟩ := hplaces folder hfolder
    exact ⟨_, sourceFiles_of_find (hfurnished.written.find_directory hfind)⟩
  · rw [hsources, ReadAs, ← hreads]
    apply List.map_congr_left
    intro file hfile
    rw [sources_of_featureFolders hfolders] at hfile
    obtain ⟨folder, hfolder, hfile⟩ := List.mem_flatMap.mp hfile
    obtain ⟨location, hfind, hspared⟩ := hplaces folder hfolder
    exact readSource_of_furnished hfurnished hfind hspared hsound.named hfile

end SelectorMangling.Site
