import SelectorMangling.Proofs.Path.Dotless
import SelectorMangling.Proofs.Site.AllOrNothing
import SelectorMangling.Proofs.Site.Unread

/-!
# The cache is no part of the site

The paths of accepted settings are normal, and the cache does not lie in the output.  The directory of
a locale lies directly in the output, and its source files lie below it.  So in a tree without links
no source file is the cache: a scan does not look into it, and a rewriting does not touch it.
-/

namespace SelectorMangling

theorem Settings.isNormal_of_ofOptions {tree : FileTree} {options : Options} {settings : Settings}
    (hsettings : ofOptions tree options = .ok settings) :
    settings.distDir.IsNormal ∧ settings.cachePath.IsNormal := by
  obtain ⟨written, rfl, -⟩ := exists_locate_of_ofOptions hsettings
  have hcurrent : tree.currentPath.isAbsolute = true := FileTree.isAbsolute_pathOf tree.current
  rw [distDir_locate, cachePath_locate]
  exact ⟨Path.isNormal_normalize (Path.isAbsolute_join hcurrent _),
    Path.isNormal_normalize (Path.isAbsolute_join hcurrent _)⟩

namespace Site

variable {tree : FileTree} {settings : Settings} {root path : Path} {base location : Location}

/-- In a tree without links only a directory has feature folders. -/
theorem isRoot_of_mem_featureFolders (hplain : tree.IsPlain) (hroot : root.Denotes base)
    {folders : List Path} (hfolders : featureFolders tree settings root = .ok folders)
    {folder : Path} (hfolder : folder ∈ folders) : IsRoot tree root base := by
  refine ⟨hplain, hroot, ?_⟩
  rw [featureFolders, searchedDirectories, FileTree.walk] at hfolders
  cases hfound : tree.findLink root with
  | error fault => simp [hfound, bind, Except.bind] at hfolders
  | ok found =>
    obtain ⟨place, entry⟩ := found
    have hentry := ((hplain.findLink_eq_ok_iff hroot).mp hfound).2.1
    cases entry with
    | directory => exact hentry
    | link target => exact absurd hentry (hplain.link_free base target)
    | file content =>
      simp only [hfound, bind, Except.bind, pure, Except.pure, Except.ok.injEq, List.map_nil,
        List.filter_nil] at hfolders
      simp [← hfolders] at hfolder

theorem isRoot_of_isSource (hplain : tree.IsPlain) (hroot : root.Denotes base)
    (hsource : IsSource tree settings root location) : IsRoot tree root base := by
  obtain ⟨_, _, ⟨_, _, _, _, hfolders, hfolder, -⟩, -⟩ := hsource
  exact isRoot_of_mem_featureFolders hplain hroot hfolders hfolder

/-- What is done with the source files of a locale has nothing to do with the cache. -/
structure CacheApart (settings : Settings) (root : Path) (tree : FileTree) : Prop where
  components_ne : ∀ file ∈ sources tree settings root,
    file.path.components ≠ settings.cachePath.components
  leads_elsewhere : ∀ file ∈ sources tree settings root, ∀ location entry other,
    tree.find file.path = .ok (location, entry) →
      tree.find settings.cachePath ≠ .ok (location, other)
  /-- Whatever the cache holds, a scan finds the same, and it leaves the cache as it is. -/
  unread : ∀ rules location content, tree.find settings.cachePath = .ok (location, .file content) →
    Overlooks tree location (scan settings rules root)
  /-- A rewriting leaves the cache, whether it fails or not. -/
  unwritten : ∀ workspace, workspace.tree = tree →
    (outcome (rewrite settings root) workspace).2.tree.find settings.cachePath =
      tree.find settings.cachePath

/-- No source file of a locale stands where the cache is. -/
theorem not_isSource_cachePath (hlocated : settings.IsLocated) (hplain : tree.IsPlain)
    {name : String} (hroot : root.Denotes (settings.distDir.location ++ [name])) :
    ¬IsSource tree settings root settings.cachePath.location := by
  intro hsource
  have hbelow := IsRoot.base_prefix (isRoot_of_isSource hplain hroot hsource) hsource
  exact not_prefix_cache hlocated (List.prefix_append _ _) hbelow

theorem cacheApart_of_isLocated (hlocated : settings.IsLocated) (hplain : tree.IsPlain)
    {name : String} (hroot : root.Denotes (settings.distDir.location ++ [name])) :
    CacheApart settings root tree := by
  have hspared := not_isSource_cachePath hlocated hplain hroot
  have hplace : ∀ location entry, tree.find settings.cachePath = .ok (location, entry) →
      location = settings.cachePath.location :=
    fun location entry hfind => ((hplain.find_eq_ok_iff hlocated.denotes_cachePath).mp hfind).1
  constructor
  case components_ne =>
    intro file hfile heq
    obtain ⟨_, _, _, _, hfolders, hfolder, -⟩ := isSourcePath_iff.mpr ⟨file, hfile, rfl⟩
    have hisRoot := isRoot_of_mem_featureFolders hplain hroot hfolders hfolder
    have hsame : settings.cachePath.location = file.path.location := by
      rw [Path.location, Path.location, heq]
    apply hspared
    rw [hsame]
    exact hisRoot.mem_locations_iff.mp (List.mem_map_of_mem hfile)
  case leads_elsewhere =>
    intro file hfile location entry other hfind hcache
    apply hspared
    rw [← hplace location other hcache]
    exact ⟨file.path, entry, isSourcePath_iff.mpr ⟨file, hfile, rfl⟩, hfind⟩
  case unread =>
    intro rules location content hcache
    apply overlooks_scan (FileTree.entryAt_of_find hcache)
    rwa [hplace location _ hcache]
  case unwritten =>
    rintro workspace rfl
    apply (rewritten_rewrite settings root workspace).find_eq
    intro location entry hcache
    rwa [hplace location entry hcache]

/-- However the paths of the settings were spelled, they are absolute and without dots, the directory
of a locale lies directly in the output, and the cache is none of its source files. -/
theorem cache_apart_from_site {start : FileTree} {options : Options} {settings : Settings}
    (hsettings : Settings.ofOptions start options = .ok settings) :
    settings.distDir.IsDotless ∧ settings.cachePath.IsDotless ∧
      ∀ locale, isValidLocale locale = true →
        (∃ name, IsEntryName name ∧ (localeDirectory settings locale).components =
          settings.distDir.components ++ [.name name]) ∧
        (localeDirectory settings locale).parent? = some settings.distDir ∧
        ∀ tree : FileTree, tree.IsPlain →
          CacheApart settings (localeDirectory settings locale) tree := by
  obtain ⟨hdist, hcache⟩ := Settings.isNormal_of_ofOptions hsettings
  have hlocated := Settings.isLocated_of_ofOptions hsettings
  refine ⟨hdist.isDotless, hcache.isDotless, ?_⟩
  intro locale hlocale
  obtain ⟨name, hname, hdenotes⟩ := hlocated.exists_denotes_localeDirectory hlocale
  refine ⟨⟨name, hname, ?_⟩, hdist.parent?_eq hdenotes, ?_⟩
  · calc
      (localeDirectory settings locale).components =
          .root :: (settings.distDir.location ++ [name]).map .name := hdenotes
      _ = (.root :: settings.distDir.location.map .name) ++ [.name name] := by
        rw [List.map_append, List.map_singleton, List.cons_append]
      _ = settings.distDir.components ++ [.name name] := by rw [← hlocated.denotes_distDir]
  · exact fun tree hplain => cacheApart_of_isLocated hlocated hplain hdenotes

theorem cache_apart_from_site_short :
    Settings.ofOptions shortSettingsTree { config := some ⟨"/f"⟩ } = .ok shortSettings ∧
      isValidLocale "e" = true ∧ (cachedTree ".x-el" "").IsPlain ∧
        CacheApart shortSettings (localeDirectory shortSettings "e") (cachedTree ".x-el" "") := by
  have hplain : (cachedTree ".x-el" "").IsPlain := by decide
  have hlocale : isValidLocale "e" = true := by decide
  obtain ⟨-, -, hlocales⟩ := cache_apart_from_site ofOptions_shortSettings
  exact ⟨ofOptions_shortSettings, hlocale, hplain, (hlocales "e" hlocale).2.2 _ hplain⟩

end Site

end SelectorMangling
