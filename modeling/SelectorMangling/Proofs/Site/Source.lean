import Mathlib.Data.List.Nodup
import SelectorMangling.Proofs.FileTree.Listing
import SelectorMangling.Proofs.FileTree.Written
import SelectorMangling.Proofs.Site.Rewrite

/-!
# The source files of a locale

The files that a run goes through are listed folder by folder.  In a tree without links they stand at
different locations, and a location is told to be one of them by what stands there and above it.
-/

namespace SelectorMangling.Site

variable {tree : FileTree} {settings : Settings} {root : Path}

/-- The source files of a folder, none if it cannot be listed. -/
def filesIn (tree : FileTree) (folder : Path) : List SourceFile :=
  match sourceFiles tree folder with
  | .ok files => files
  | .error _ => []

/-- The source files of a locale in the order in which a run goes through them. -/
def sources (tree : FileTree) (settings : Settings) (root : Path) : List SourceFile :=
  match featureFolders tree settings root with
  | .ok folders => folders.flatMap (filesIn tree)
  | .error _ => []

theorem isSourcePath_iff {path : Path} :
    IsSourcePath tree settings root path ↔ ∃ file ∈ sources tree settings root, file.path = path := by
  constructor
  · rintro ⟨folders, folder, files, file, hfolders, hfolder, hfiles, hfile, rfl⟩
    refine ⟨file, ?_, rfl⟩
    rw [sources, hfolders]
    refine List.mem_flatMap.mpr ⟨folder, hfolder, ?_⟩
    rwa [filesIn, hfiles]
  · rintro ⟨file, hfile, rfl⟩
    unfold sources at hfile
    split at hfile
    · next folders hfolders =>
      obtain ⟨folder, hfolder, hfile⟩ := List.mem_flatMap.mp hfile
      unfold filesIn at hfile
      split at hfile
      · next files hfiles =>
        exact ⟨folders, folder, files, file, hfolders, hfolder, hfiles, hfile, rfl⟩
      · contradiction
    · contradiction

theorem sourceFile?_eq_some_iff {folder : Path} {name : String} {entry : Entry}
    {file : SourceFile} :
    sourceFile? folder name entry = some file ↔
      entry.isFile = true ∧ ∃ kind, SourceKind.ofPath? (folder.child name) = some kind ∧
        ⟨folder.child name, name, kind⟩ = file := by
  unfold sourceFile?
  split
  · next hfile => simp [hfile]
  · next hfile => simp [hfile]

/-! ## Listing a folder -/

section Listing

variable {folder : Path} {location : Location}
  (hfolder : tree.find folder = .ok (location, .directory))
include hfolder

theorem sourceFiles_of_find :
    sourceFiles tree folder =
      .ok (((tree.children location).filterMap fun child =>
        sourceFile? folder child.1 child.2).mergeSort SourceFile.precedes) := by
  rw [sourceFiles, hfolder]
  rfl

theorem sourceFiles_eq_filesIn : sourceFiles tree folder = .ok (filesIn tree folder) := by
  rw [filesIn, sourceFiles_of_find hfolder]

theorem mem_filesIn_of_find {file : SourceFile} :
    file ∈ filesIn tree folder ↔ ∃ name content kind,
      tree.entryAt (location ++ [name]) = some (.file content) ∧
        SourceKind.ofPath? (folder.child name) = some kind ∧
          ⟨folder.child name, name, kind⟩ = file := by
  simp only [filesIn, sourceFiles_of_find hfolder, List.mem_mergeSort, List.mem_filterMap,
    Prod.exists, FileTree.mem_children_iff, sourceFile?_eq_some_iff]
  constructor
  · rintro ⟨name, entry, hentry, hfile, kind, hkind⟩
    obtain ⟨content, rfl⟩ := Entry.exists_file_of_isFile hfile
    exact ⟨name, content, kind, hentry, hkind⟩
  · rintro ⟨name, content, kind, hentry, hkind⟩
    exact ⟨name, .file content, hentry, rfl, kind, hkind⟩

theorem nodup_filesIn_of_find : ((filesIn tree folder).map SourceFile.name).Nodup := by
  simp only [filesIn, sourceFiles_of_find hfolder]
  rw [((List.mergeSort_perm _ _).map SourceFile.name).nodup_iff, List.Nodup, List.pairwise_map]
  apply (List.pairwise_map.mp (tree.nodup_children location)).filterMap
  intro left right hne leftFile hleft rightFile hright
  obtain ⟨-, _, -, rfl⟩ := sourceFile?_eq_some_iff.mp hleft
  obtain ⟨-, _, -, rfl⟩ := sourceFile?_eq_some_iff.mp hright
  exact hne

end Listing

/-- A path leads straight down to a directory of a tree without links. -/
structure IsRoot (tree : FileTree) (root : Path) (base : Location) : Prop where
  plain : tree.IsPlain
  denotes : root.Denotes base
  directory : tree.entryAt base = some .directory

namespace IsRoot

variable {base : Location}

theorem below (hroot : IsRoot tree root base) {admits : String → Bool} {names : List String}
    (hreached : tree.isReached admits base names = true) :
    IsRoot tree (below root names) (base ++ names) := by
  have hdirectory := FileTree.entryAt_append_of_isReached hroot.directory hreached
  have hproper := FileTree.HasEntryNames.of_isReached hroot.plain.named hreached
  exact ⟨hroot.plain, hroot.denotes.foldl_child hproper, hdirectory⟩

theorem find_eq (hroot : IsRoot tree root base) : tree.find root = .ok (base, .directory) :=
  hroot.plain.find_of_directory hroot.denotes hroot.directory

/-- The path of a source file leads straight down to a file. -/
theorem of_mem_filesIn (hroot : IsRoot tree root base) {file : SourceFile}
    (hfile : file ∈ filesIn tree root) :
    file.path.Denotes (base ++ [file.name]) ∧ file.path.EndsInMove ∧
      ∃ content, tree.entryAt (base ++ [file.name]) = some (.file content) := by
  obtain ⟨name, content, kind, hentry, -, rfl⟩ := (mem_filesIn_of_find hroot.find_eq).mp hfile
  have hname := hroot.plain.named _ _ hentry name (by simp)
  exact ⟨hroot.denotes.child hname, Path.endsInMove_child _ hname, content,
    hentry⟩

theorem featureFolders_eq (hroot : IsRoot tree root base) (settings : Settings) :
    featureFolders tree settings root =
      .ok ((([] :: tree.directoriesBelow (isSearched settings) base).map (Site.below root)).filter
        (hasIndex tree settings)) := by
  have hlink : tree.findLink root = .ok (base, .directory) :=
    (hroot.plain.findLink_eq_ok_iff hroot.denotes).mpr ⟨rfl, hroot.directory, .inr rfl⟩
  rw [featureFolders, searchedDirectories, FileTree.walk, hlink]
  rfl

theorem mem_visited_iff {admits : String → Bool} {names : List String} :
    names ∈ [] :: tree.directoriesBelow admits base ↔ tree.isReached admits base names = true := by
  rw [List.mem_cons, FileTree.mem_directoriesBelow_iff]
  by_cases hnames : names = []
  · simp [hnames, FileTree.isReached]
  · simp [hnames]

theorem nodup_visited (tree : FileTree) (admits : String → Bool) (base : Location) :
    ([] :: tree.directoriesBelow admits base).Nodup := by
  refine List.nodup_cons.mpr ⟨?_, tree.nodup_directoriesBelow admits base⟩
  intro hmem
  exact (FileTree.mem_directoriesBelow_iff.mp hmem).1 rfl

theorem mem_sources_iff (hroot : IsRoot tree root base) {file : SourceFile} :
    file ∈ sources tree settings root ↔ ∃ names,
      tree.isReached (isSearched settings) base names = true ∧
        hasIndex tree settings (Site.below root names) = true ∧
          file ∈ filesIn tree (Site.below root names) := by
  simp only [sources, hroot.featureFolders_eq, List.mem_flatMap, List.mem_filter, List.mem_map,
    mem_visited_iff]
  constructor
  · rintro ⟨_, ⟨⟨names, hreached, rfl⟩, hindex⟩, hfile⟩
    exact ⟨names, hreached, hindex, hfile⟩
  · rintro ⟨names, hreached, hindex, hfile⟩
    exact ⟨_, ⟨⟨names, hreached, rfl⟩, hindex⟩, hfile⟩

/-- The path of a source file of a locale leads straight down to a file below the locale. -/
theorem of_mem_sources (hroot : IsRoot tree root base) {file : SourceFile}
    (hfile : file ∈ sources tree settings root) :
    file.path.Denotes file.path.location ∧ file.path.EndsInMove ∧ base <+: file.path.location ∧
      ∃ content, tree.entryAt file.path.location = some (.file content) := by
  obtain ⟨names, hreached, -, hfile⟩ := hroot.mem_sources_iff.mp hfile
  obtain ⟨hpath, hend, hentry⟩ := (hroot.below hreached).of_mem_filesIn hfile
  rw [hpath.location_eq]
  refine ⟨hpath, hend, ?_, hentry⟩
  rw [List.append_assoc]
  exact List.prefix_append _ _

/-- No two source files of a locale stand at the same location. -/
theorem nodup_locations (hroot : IsRoot tree root base) (settings : Settings) :
    ((sources tree settings root).map fun file => file.path.location).Nodup := by
  have hlocation : ∀ names, tree.isReached (isSearched settings) base names = true →
      ∀ file ∈ filesIn tree (Site.below root names),
        file.path.location = base ++ names ++ [file.name] :=
    fun names hreached file hfile =>
      ((hroot.below hreached).of_mem_filesIn hfile).1.location_eq
  simp only [sources, hroot.featureFolders_eq, List.map_flatMap]
  refine List.nodup_flatMap.mpr ⟨?_, ?_⟩
  · intro folder hfolder
    obtain ⟨names, hvisited, rfl⟩ := List.mem_map.mp (List.mem_of_mem_filter hfolder)
    have hreached := mem_visited_iff.mp hvisited
    have hnames := nodup_filesIn_of_find (hroot.below hreached).find_eq
    rw [List.Nodup, List.pairwise_map] at hnames ⊢
    apply hnames.imp_of_mem
    intro left right hleft hright hne heq
    rw [hlocation names hreached left hleft, hlocation names hreached right hright] at heq
    exact hne (by simpa using heq)
  · apply List.Pairwise.filter
    rw [List.pairwise_map]
    apply (nodup_visited tree (isSearched settings) base).imp_of_mem
    intro left right hleft hright hne location hmemLeft hmemRight
    obtain ⟨leftFile, hleftFile, rfl⟩ := List.mem_map.mp hmemLeft
    obtain ⟨rightFile, hrightFile, heq⟩ := List.mem_map.mp hmemRight
    rw [hlocation left (mem_visited_iff.mp hleft) leftFile hleftFile,
      hlocation right (mem_visited_iff.mp hright) rightFile hrightFile] at heq
    have hnames := (List.append_inj' heq rfl).1
    exact hne (List.append_cancel_left hnames).symm

/-- The source files of a locale are what stands at their locations. -/
theorem mem_locations_iff (hroot : IsRoot tree root base) {location : Location} :
    location ∈ (sources tree settings root).map (fun file => file.path.location) ↔
      IsSource tree settings root location := by
  constructor
  · intro hmem
    obtain ⟨file, hfile, rfl⟩ := List.mem_map.mp hmem
    obtain ⟨hpath, hend, -, content, hentry⟩ := hroot.of_mem_sources hfile
    exact ⟨file.path, .file content, isSourcePath_iff.mpr ⟨file, hfile, rfl⟩,
      (hroot.plain.find_eq_ok_iff hpath).mpr ⟨rfl, hentry, .inl hend⟩⟩
  · rintro ⟨path, entry, hsource, hfind⟩
    obtain ⟨file, hfile, rfl⟩ := isSourcePath_iff.mp hsource
    obtain ⟨rfl, -⟩ := (hroot.plain.find_eq_ok_iff (hroot.of_mem_sources hfile).1).mp hfind
    exact List.mem_map_of_mem hfile

/-- Whether a location is that of a source file is told by what stands there and above it. -/
theorem isSource_iff (hroot : IsRoot tree root base) {location : Location} :
    IsSource tree settings root location ↔ ∃ names name content,
      location = base ++ names ++ [name] ∧
        tree.isReached (isSearched settings) base names = true ∧
          hasIndex tree settings (Site.below root names) = true ∧
            tree.entryAt location = some (.file content) ∧
              (SourceKind.ofPath? ((Site.below root names).child name)).isSome := by
  rw [← hroot.mem_locations_iff, List.mem_map]
  constructor
  · rintro ⟨file, hfile, rfl⟩
    obtain ⟨names, hreached, hindex, hfile⟩ := hroot.mem_sources_iff.mp hfile
    have hbelow := hroot.below hreached
    obtain ⟨name, content, kind, hentry, hkind, rfl⟩ :=
      (mem_filesIn_of_find hbelow.find_eq).mp hfile
    obtain ⟨hpath, -⟩ := hbelow.of_mem_filesIn hfile
    rw [hpath.location_eq]
    exact ⟨names, name, content, rfl, hreached, hindex, hentry, by rw [hkind]; rfl⟩
  · rintro ⟨names, name, content, rfl, hreached, hindex, hentry, hkind⟩
    obtain ⟨kind, hkind⟩ := Option.isSome_iff_exists.mp hkind
    have hbelow := hroot.below hreached
    have hfile :=
      (mem_filesIn_of_find hbelow.find_eq).mpr ⟨name, content, kind, hentry, hkind, rfl⟩
    exact ⟨_, hroot.mem_sources_iff.mpr ⟨names, hreached, hindex, hfile⟩,
      (hbelow.of_mem_filesIn hfile).1.location_eq⟩

theorem exists_files_of_mem_featureFolders (hroot : IsRoot tree root base) {folders : List Path}
    (hfolders : featureFolders tree settings root = .ok folders) {folder : Path}
    (hfolder : folder ∈ folders) : ∃ files, sourceFiles tree folder = .ok files := by
  rw [hroot.featureFolders_eq, Except.ok.injEq] at hfolders
  rw [← hfolders] at hfolder
  obtain ⟨names, hvisited, rfl⟩ := List.mem_map.mp (List.mem_of_mem_filter hfolder)
  exact ⟨_, sourceFiles_of_find (hroot.below (mem_visited_iff.mp hvisited)).find_eq⟩

/-- Where all source files hold texts, they are accessible. -/
theorem accessible (hroot : IsRoot tree root base)
    (htexts : ∀ location, IsSource tree settings root location →
      ∃ text : String, tree.entryAt location = some (.file text.toUTF8)) :
    Accessible tree settings root where
  listed := ⟨_, hroot.featureFolders_eq settings, fun _ hfolder =>
    hroot.exists_files_of_mem_featureFolders (hroot.featureFolders_eq settings) hfolder⟩
  readable := by
    intro path hpath
    obtain ⟨file, hfile, rfl⟩ := isSourcePath_iff.mp hpath
    obtain ⟨hdenotes, hend, -⟩ := hroot.of_mem_sources hfile
    obtain ⟨text, htext⟩ := htexts _ (hroot.mem_locations_iff.mp (List.mem_map_of_mem hfile))
    exact ⟨text, (hroot.plain.readText_eq_ok_iff hdenotes).mpr ⟨hend, htext⟩⟩
  writable := by
    intro path hpath
    obtain ⟨file, hfile, rfl⟩ := isSourcePath_iff.mp hpath
    exact (hroot.of_mem_sources hfile).2.1.getLast?_ne

/-! ## After changes -/

variable {later : FileTree} {location : Location}

theorem written {allowed : Location → Prop} (hroot : IsRoot tree root base)
    (hwritten : FileTree.Written allowed tree later) : IsRoot later root base :=
  ⟨hwritten.isPlain hroot.plain, hroot.denotes, hwritten.entryAt_directory hroot.directory⟩

/-- Where the same locations are those of source files, there are as many source files. -/
theorem length_sources_eq (hroot : IsRoot tree root base) (hlater : IsRoot later root base)
    (hsame : ∀ location, IsSource later settings root location ↔
      IsSource tree settings root location) :
    (sources later settings root).length = (sources tree settings root).length := by
  have hperm := (List.perm_ext_iff_of_nodup (hlater.nodup_locations settings)
    (hroot.nodup_locations settings)).mpr fun location => by
      rw [hlater.mem_locations_iff, hsame, hroot.mem_locations_iff]
  simpa only [List.length_map] using hperm.length_eq

/-- Source files stay source files when something is put into the tree. -/
theorem isSource_of_written {allowed : Location → Prop} (hroot : IsRoot tree root base)
    (hwritten : FileTree.Written allowed tree later)
    (hsource : IsSource tree settings root location) : IsSource later settings root location := by
  obtain ⟨names, name, content, rfl, hreached, hindex, hentry, hkind⟩ :=
    hroot.isSource_iff.mp hsource
  have hlater := FileTree.isReached_of_entryAt_mono (fun _ => hwritten.entryAt_directory) hreached
  obtain ⟨new, hnew⟩ := hwritten.exists_file hentry
  exact (hroot.written hwritten).isSource_iff.mpr ⟨names, name, new, rfl, hlater,
    hwritten.isFile_of_isFile hindex, hnew, hkind⟩

/-- An index file that is named like an entry is looked for in the directory itself. -/
theorem hasIndex_iff (hroot : IsRoot tree root base) (hname : IsEntryName settings.indexFile) :
    hasIndex tree settings root = true ↔
      ∃ content, tree.entryAt (base ++ [settings.indexFile]) = some (.file content) := by
  have hpath : (root.join ⟨settings.indexFile⟩).Denotes (base ++ [settings.indexFile]) :=
    hroot.denotes.child hname
  have hend : (root.join ⟨settings.indexFile⟩).EndsInMove :=
    Path.endsInMove_child _ hname
  rw [hasIndex, hroot.plain.isFile_iff hpath]
  exact and_iff_right hend

/-- With such an index file the source files depend only on what stands below the locale. -/
theorem isSource_of_entryAt_eq (hroot : IsRoot tree root base) (hlater : IsRoot later root base)
    (hname : IsEntryName settings.indexFile)
    (hsame : ∀ location, base <+: location → later.entryAt location = tree.entryAt location)
    (hsource : IsSource tree settings root location) : IsSource later settings root location := by
  obtain ⟨names, name, content, rfl, hreached, hindex, hentry, hkind⟩ :=
    hroot.isSource_iff.mp hsource
  have hreachedLater : later.isReached (isSearched settings) base names = true := by
    rwa [FileTree.isReached_congr hsame]
  have hbelow : ∀ last, base <+: base ++ names ++ [last] := by
    intro last
    rw [List.append_assoc]
    exact List.prefix_append _ _
  have hindexLater : hasIndex later settings (Site.below root names) = true := by
    rw [(hroot.below hreached).hasIndex_iff hname] at hindex
    rwa [(hlater.below hreachedLater).hasIndex_iff hname, hsame _ (hbelow _)]
  rw [← hsame _ (hbelow _)] at hentry
  exact hlater.isSource_iff.mpr
    ⟨names, name, content, rfl, hreachedLater, hindexLater, hentry, hkind⟩

theorem isSource_congr (hroot : IsRoot tree root base) (hlater : IsRoot later root base)
    (hname : IsEntryName settings.indexFile)
    (hsame : ∀ location, base <+: location → later.entryAt location = tree.entryAt location) :
    IsSource later settings root location ↔ IsSource tree settings root location :=
  ⟨hlater.isSource_of_entryAt_eq hroot hname fun place hplace => (hsame place hplace).symm,
    hroot.isSource_of_entryAt_eq hlater hname hsame⟩

end IsRoot

end SelectorMangling.Site
