import SelectorMangling.Proofs.Catalog.Family
import SelectorMangling.Proofs.Catalog.Saving
import SelectorMangling.Proofs.Site.Increments
import SelectorMangling.Proofs.Site.Outside

/-!
# Building again

A build leaves every candidate of a locale in the cache and the family numbered.  So the next build of
the locale, which comes across the same texts, adds nothing, numbers nothing anew and saves the cache
as it is.
-/

namespace SelectorMangling.Site

open FileTree

variable {settings : Settings} {rules : Rules} {root : Path} {before left : Workspace}
  {stats : ScanStats}

/-- A build that begins with a catalog in the cache and comes across texts goes through all its
stages. -/
structure Builds (settings : Settings) (rules : Rules) (root : Path) (before : FileTree)
    (loaded : Catalog) (contents : List (SourceKind × String)) (after : FileTree)
    (built : Catalog) : Prop where
  load : Catalog.load before settings.cachePath = .ok loaded
  provides : Provides before settings root contents
  room : (loaded.grow (rules.stream contents)).exhausted = none
  built_eq : built = (loaded.grow (rules.stream contents)).catalog.deriveElevation
    settings.elevationPrefix
  save : built.save before settings.cachePath = (after, .ok ())
  valid : built.validate = .ok ()

/-- A build that gives a result has gone through all its stages. -/
theorem builds_of_cachedBuild
    (hbuild : outcome (cachedBuild settings rules root) before = (.ok stats, left)) :
    ∃ loaded contents,
      Builds settings rules root before.tree loaded contents left.tree left.catalog := by
  rw [cachedBuild] at hbuild
  obtain ⟨_, between, hloaded, hbuild⟩ := outcome_bind_eq_ok hbuild
  rw [outcome_loadCatalog] at hloaded
  split at hloaded
  · next loaded hload =>
    obtain ⟨-, rfl⟩ := Prod.mk.inj hloaded
    have hends := buildEnds settings rules root { before with catalog := loaded }
    rw [hbuild] at hends
    cases hends with
    | @done _ scanned _ hscan hcatalog hsave hvalid =>
      obtain ⟨htree, hgrown, hfault⟩ := passes_scan settings rules root before.tree
        (scanStart root { before with catalog := loaded }) rfl
      rw [hscan] at htree hgrown hfault
      obtain ⟨hroom, hclear⟩ := Option.or_eq_none_iff.mp hfault.symm
      refine ⟨loaded, untilFault (course before.tree settings root), hload,
        provides_iff_firstFault.mpr hclear, Option.map_eq_none_iff.mp hroom, ?_, ?_, hvalid⟩
      · rw [hcatalog]
        exact congrArg (Catalog.deriveElevation · settings.elevationPrefix) hgrown
      · rwa [← show scanned.tree = before.tree from htree]
  · simp at hloaded

/-- A build that can go through all its stages gives a result. -/
theorem Builds.exists_cachedBuild {tree after : FileTree} {loaded built : Catalog}
    {contents : List (SourceKind × String)}
    (hbuilds : Builds settings rules root tree loaded contents after built) (before : Workspace)
    (htree : before.tree = tree) :
    ∃ left, outcome (cachedBuild settings rules root) before =
        (.ok ⟨contents.length, built.size - loaded.size⟩, left) ∧
      left.tree = after ∧ left.catalog = built := by
  subst htree
  obtain ⟨stats, scanned, hscan, hsame, hgrown⟩ :=
    exists_scan_of_room hbuilds.provides hbuilds.room
      (scanStart root { before with catalog := loaded }) rfl rfl
  have hbuilt : scanned.catalog.deriveElevation settings.elevationPrefix = built := by
    rw [hbuilds.built_eq, hgrown]
  obtain ⟨left, hbuild, hleft, hcatalog⟩ :=
    exists_build_eq_ok { before with catalog := loaded } hscan
      (by rw [hbuilt, hsame]; exact hbuilds.save) (by rw [hbuilt]; exact hbuilds.valid)
  have hstats : stats = ⟨contents.length, built.size - loaded.size⟩ := by
    have hscanned := scan_eq_ok hscan
    have hfiles : stats.scannedFiles = contents.length := by
      rw [hscanned.scannedFiles_eq, ← hbuilds.provides.reads.length_eq]
      exact Nat.zero_add _
    have hsize : loaded.size + stats.addedSelectors = scanned.catalog.size := hscanned.size_eq
    have hnumbered : built.size = scanned.catalog.size := by
      rw [← hbuilt, Catalog.size_deriveElevation]
    rw [hnumbered, ← hsize, ← hfiles, Nat.add_sub_cancel_left]
  refine ⟨left, ?_, hleft, hcatalog.trans hbuilt⟩
  rw [cachedBuild, outcome_bind, outcome_loadCatalog, hbuilds.load, ← hstats]
  exact hbuild

/-- The next build of the same texts adds nothing and leaves the tree as it is. -/
theorem Builds.again {tree after : FileTree} {loaded built : Catalog}
    {contents : List (SourceKind × String)}
    (hbuilds : Builds settings rules root tree loaded contents after built)
    (hsound : tree.IsSound) (hprovides : Provides after settings root contents) :
    Builds settings rules root after built contents after built := by
  have hgrows : Catalog.Grows rules.IsCandidate loaded
      (loaded.grow (rules.stream contents)).catalog := by
    apply Catalog.grows_grow
    intro name hname
    obtain ⟨content, -, hcandidate⟩ := List.mem_flatMap.mp hname
    exact ⟨content.1, content.2, hcandidate⟩
  have hcataloged : ∀ name ∈ rules.stream contents, name ∈ built.names := by
    intro name hname
    rw [hbuilds.built_eq, Catalog.names_deriveElevation]
    exact (Catalog.mem_names_grow_iff hbuilds.room).mpr (.inr hname)
  have hgrown := Catalog.grow_of_forall_mem hcataloged
  constructor
  case load =>
    apply Catalog.load_of_save _ hbuilds.save
    rw [hbuilds.built_eq, Catalog.names_deriveElevation]
    exact hgrows.countKey_notMem (Catalog.countKey_notMem_names_of_load hbuilds.load)
  case provides => exact hprovides
  case room => rw [hgrown]
  case built_eq => rw [hgrown, hbuilds.built_eq, Catalog.deriveElevation_deriveElevation]
  case save => exact Catalog.save_of_save hsound hbuilds.save
  case valid => exact hbuilds.valid

/-- The cache that a build saves lies outside the directory of the locale, wherever links lead, and no
broken link in the place of an index file leads to a file when it has been saved. -/
structure SavedOutside (settings : Settings) (root : Path) (before left : FileTree) : Prop where
  outside : ∀ base place entry, before.find root = .ok (base, .directory) →
    left.find settings.cachePath = .ok (place, entry) → ¬base <+: place
  unmended : ∀ directories, searchedDirectories before settings root = .ok directories →
    ∀ directory ∈ directories, ¬MendsIndex settings before left directory

/-- After a build that gives a result, another build of the tree that it left gives a result too.  It
adds no names and saves the cache that is there, byte for byte. -/
theorem building_again_changes_nothing (hsound : before.tree.IsSound)
    (hindex : IsEntryName settings.indexFile)
    (hbuild : outcome (cachedBuild settings rules root) before = (.ok stats, left))
    (hsaved : SavedOutside settings root before.tree left.tree) (later : Workspace)
    (hlater : later.tree = left.tree) :
    ∃ again, outcome (cachedBuild settings rules root) later = (.ok ⟨stats.scannedFiles, 0⟩, again) ∧
      again.tree = left.tree ∧ again.catalog = left.catalog ∧
      ∃ place, again.tree.find settings.cachePath =
        .ok (place, .file left.catalog.render.toUTF8) := by
  obtain ⟨loaded, contents, hbuilds⟩ := builds_of_cachedBuild hbuild
  obtain ⟨place, hfind, hfurnished⟩ := Catalog.furnished_of_save hsound hbuilds.save
  have hprovides := hbuilds.provides.of_furnished hsound hfurnished hindex
    (fun base hroot => hsaved.outside base place _ hroot hfind) hsaved.unmended
  obtain ⟨again, hagain, htree, hcatalog⟩ :=
    (hbuilds.again hsound hprovides).exists_cachedBuild later hlater
  have hscanned : stats.scannedFiles = contents.length := by
    obtain ⟨first, hfirst, -⟩ := hbuilds.exists_cachedBuild before rfl
    rw [hbuild] at hfirst
    rw [Except.ok.inj (Prod.mk.inj hfirst).1]
  rw [Nat.sub_self, ← hscanned] at hagain
  exact ⟨again, hagain, htree, hcatalog, place, htree ▸ hfind⟩

theorem builds_shortTree :
    Builds shortSettings shortRules ⟨"/d/e"⟩ (shortTree ".m-el2") .empty [(.style, ".m-el2")]
      (cachedTree ".m-el2" memberAlone.render) memberAlone := by
  constructor
  case load => exact Catalog.load_of_not_exists (not_exists_of_vacant (vacant_shortTree ".m-el2"))
  case provides => exact (hasStyle_shortTree ".m-el2").provides
  case room => exact grow_member.1
  case built_eq => rw [grow_member.2, Catalog.deriveElevation_of_notMem (by decide)]
  case save => exact save_short _ (.inl (vacant_shortTree ".m-el2"))
  case valid => decide

theorem savedOutside_shortTree :
    SavedOutside shortSettings ⟨"/d/e"⟩ (shortTree ".m-el2")
      (cachedTree ".m-el2" memberAlone.render) where
  outside := by
    intro base place entry hroot hcache
    have hbase := find_of_findLink (by simp) (hasStyle_shortTree ".m-el2").root
    obtain ⟨rfl, -⟩ := Prod.mk.inj (Except.ok.inj (hbase.symm.trans hroot))
    obtain ⟨rfl, -⟩ := Prod.mk.inj
      (Except.ok.inj ((find_cachedTree ".m-el2" memberAlone.render).symm.trans hcache))
    decide
  unmended := by
    intro directories hsearched directory hdirectory hmends
    have honly : searchedDirectories (shortTree ".m-el2") shortSettings ⟨"/d/e"⟩ =
        .ok [⟨"/d/e"⟩] := by
      rw [searchedDirectories, walk_of_directory (hasStyle_shortTree ".m-el2").root,
        directoriesBelow_of_childless rfl]
      rfl
    obtain rfl := Except.ok.inj (honly.symm.trans hsearched)
    obtain rfl := List.mem_singleton.mp hdirectory
    have hexists : (shortTree ".m-el2").exists? ⟨"/d/e/i"⟩ = true :=
      exists_of_find (find_of_resolveWithin 5 rfl)
    exact absurd (hexists.symm.trans hmends.broken) (by decide)

theorem building_again_changes_nothing_shortTree :
    ∃ left again,
      outcome (cachedBuild shortSettings shortRules ⟨"/d/e"⟩) { tree := shortTree ".m-el2" } =
        (.ok ⟨1, 1⟩, left) ∧
      outcome (cachedBuild shortSettings shortRules ⟨"/d/e"⟩) { tree := left.tree } =
        (.ok ⟨1, 0⟩, again) ∧
      again.tree = left.tree := by
  have hplain : (shortTree ".m-el2").IsPlain := by decide
  obtain ⟨left, hbuild, hleft, -⟩ :=
    builds_shortTree.exists_cachedBuild { tree := shortTree ".m-el2" } rfl
  obtain ⟨again, hagain, htree, -⟩ := building_again_changes_nothing (hplain.isSound rfl)
    (by decide) hbuild (hleft ▸ savedOutside_shortTree) { tree := left.tree } rfl
  exact ⟨left, again, hbuild, hagain, htree⟩

/-! ## A broken link in the place of an index file -/

/-- A locale with one stylesheet, in which a link to the cache stands for the index file. -/
def brokenTree : FileTree where
  entries :=
    [(["d"], .directory), (["d", "e"], .directory), (["d", "e", "i"], .link ⟨"/c"⟩),
     (["d", "e", "a.css"], .file ".m-el2".toUTF8)]
  locations_nodup := by
    change [["d"], ["d", "e"], ["d", "e", "i"], ["d", "e", "a.css"]].Nodup
    decide

/-- The same locale with a cache. -/
def mendedTree (cache : String) : FileTree := brokenTree.set ["c"] (.file cache.toUTF8)

theorem builds_brokenTree :
    Builds shortSettings shortRules ⟨"/d/e"⟩ brokenTree .empty [] (mendedTree Catalog.empty.render)
      .empty := by
  have hjoin : (⟨"/d/e"⟩ : Path).join ⟨"i"⟩ = ⟨"/d/e/i"⟩ := by decide +kernel
  have hindex : brokenTree.isFile ⟨"/d/e/i"⟩ = false :=
    not_isFile_of_vacant (resolve_of_resolveWithin 6 rfl)
  have hfolders : featureFolders brokenTree shortSettings ⟨"/d/e"⟩ = .ok [] := by
    rw [featureFolders_of_walk (walk_of_directory (findLink_of_resolve
      (resolve_of_resolveWithin 4 rfl)) _), directoriesBelow_of_childless rfl]
    simp [below, hasIndex, shortSettings, hjoin, hindex]
  have hresolve : brokenTree.resolve true ⟨"/c"⟩ = .ok (.vacant ["c"]) :=
    resolve_of_resolveWithin 3 rfl
  constructor
  case load => exact Catalog.load_of_not_exists (not_exists_of_vacant hresolve)
  case provides =>
    refine ⟨⟨[], hfolders, List.forall_mem_nil _⟩, ?_⟩
    rw [sources_of_featureFolders hfolders]
    rfl
  case room => rfl
  case built_eq => exact (Catalog.deriveElevation_of_notMem (Catalog.notMem_names_empty _)).symm
  case save => exact save_short _ (.inl hresolve)
  case valid => decide

theorem find_mendedTree (cache : String) :
    (mendedTree cache).find ⟨"/c"⟩ = .ok (["c"], .file cache.toUTF8) :=
  find_of_resolveWithin 3 rfl

theorem hasStyle_mendedTree (cache : String) : HasStyle (mendedTree cache) ".m-el2" where
  root := findLink_of_resolve (resolve_of_resolveWithin 4 rfl)
  children := ⟨_, rfl, rfl⟩
  index := isFile_of_find (find_of_resolveWithin 6 rfl)
  find := find_of_resolveWithin 5 rfl

theorem builds_mendedTree :
    Builds shortSettings shortRules ⟨"/d/e"⟩ (mendedTree Catalog.empty.render) .empty
      [(.style, ".m-el2")] (mendedTree memberAlone.render) memberAlone := by
  constructor
  case load => exact Catalog.load_of_save (Catalog.notMem_names_empty _) builds_brokenTree.save
  case provides => exact (hasStyle_mendedTree _).provides
  case room => exact grow_member.1
  case built_eq => rw [grow_member.2, Catalog.deriveElevation_of_notMem (by decide)]
  case save => exact save_short _ (.inr ⟨_, find_mendedTree _⟩)
  case valid => decide

/-- The cache lies outside the locale, and yet saving it makes the locale a feature folder.  Another
build of the tree adds a name and changes the cache. -/
theorem building_again_adds_brokenTree :
    brokenTree.IsSound ∧ IsEntryName shortSettings.indexFile ∧
      shortSettings.cachePath.startsWith ⟨"/d/e"⟩ = false ∧
      ∃ first second,
        outcome (cachedBuild shortSettings shortRules ⟨"/d/e"⟩) { tree := brokenTree } =
          (.ok ⟨0, 0⟩, first) ∧
        outcome (cachedBuild shortSettings shortRules ⟨"/d/e"⟩) { tree := first.tree } =
          (.ok ⟨1, 1⟩, second) ∧
        first.tree.find ⟨"/c"⟩ = .ok (["c"], .file Catalog.empty.render.toUTF8) ∧
        second.tree.find ⟨"/c"⟩ ≠ first.tree.find ⟨"/c"⟩ := by
  have hsound : brokenTree.IsSound := ⟨by decide, by decide, rfl⟩
  obtain ⟨first, hfirst, hfirstTree, -⟩ :=
    builds_brokenTree.exists_cachedBuild { tree := brokenTree } rfl
  obtain ⟨second, hsecond, hsecondTree, -⟩ :=
    builds_mendedTree.exists_cachedBuild { tree := first.tree } hfirstTree
  refine ⟨hsound, by decide, by decide, first, second, hfirst, hsecond, ?_, ?_⟩
  · rw [hfirstTree]
    exact find_mendedTree _
  · rw [hfirstTree, hsecondTree, find_mendedTree, find_mendedTree]
    intro hsame
    have hbytes := Entry.file.inj (Prod.mk.inj (Except.ok.inj hsame)).2
    have htext : memberAlone.render = Catalog.empty.render := by
      have hdecoded := congrArg String.fromUTF8? hbytes
      rw [fromUTF8?_toUTF8, fromUTF8?_toUTF8] at hdecoded
      exact Option.some.inj hdecoded
    have hparse : Catalog.parse memberAlone.render = .ok memberAlone :=
      Catalog.parse_render (by decide)
    rw [htext, Catalog.parse_render (Catalog.notMem_names_empty _)] at hparse
    exact absurd (congrArg Catalog.count (Except.ok.inj hparse)) (by decide)

end SelectorMangling.Site
