import SelectorMangling.Proofs.FileTree.Furnished
import SelectorMangling.Proofs.Site.Additions
import SelectorMangling.Proofs.Site.Mangle
import SelectorMangling.Proofs.Site.Order
import SelectorMangling.Proofs.Site.RootFolder

/-!
# Codes over a history of runs

Runs follow one another, for the reference locale and for others, each on whatever output there is
by then.  The cache is what one run hands on to the next.  Over any such history names stay in the
cache, and the codes that change are told exactly.
-/

namespace SelectorMangling.Site

/-- A build that ends without a fault leaves a cache with settled codes, and the catalog that it
began with keeps its names in front. -/
theorem load_of_build {settings : Settings} {rules : Rules} {root : Path}
    {workspace left : Workspace} {stats : ScanStats}
    (hsettled : Catalog.Settled settings.elevationPrefix workspace.catalog)
    (hfree : Catalog.countKey ∉ workspace.catalog.names)
    (hbuild : outcome (build settings rules root) workspace = (.ok stats, left)) :
    Catalog.load left.tree settings.cachePath = .ok left.catalog ∧
      Catalog.Settled settings.elevationPrefix left.catalog ∧
      Catalog.countKey ∉ left.catalog.names ∧ workspace.catalog.names <+: left.catalog.names := by
  obtain ⟨scanned, hgrows, hcatalog, hsave⟩ := build_eq_ok hbuild
  have hnames : left.catalog.names = scanned.names := by
    rw [hcatalog, Catalog.names_deriveElevation]
  have hfreeLeft : Catalog.countKey ∉ left.catalog.names := by
    rw [hnames]
    exact hgrows.countKey_notMem hfree
  have hsettledLeft : Catalog.Settled settings.elevationPrefix left.catalog := by
    rw [hcatalog]
    exact hsettled.deriveElevation hgrows
  rw [hnames] at hfreeLeft ⊢
  exact ⟨Catalog.load_of_save (hnames ▸ hfreeLeft) hsave, hsettledLeft, hfreeLeft,
    hgrows.names_prefix⟩

/-- A run for a locale, with the files before and after it. -/
structure Run where
  locale : String
  before : FileTree
  after : FileTree

namespace Run

/-- The run ends without a fault. -/
def Succeeds (settings : Settings) (run : Run) : Prop :=
  ∃ summary left, outcome (mangle settings run.locale) { tree := run.before } =
    (.ok summary, left) ∧ left.tree = run.after

/-- The cache is none of the source files that the run rewrites.  Settings are refused if the cache
lies inside the output, so that only links can lead from one to the other. -/
def SparesCache (settings : Settings) (run : Run) : Prop :=
  ∀ location entry, run.after.find settings.cachePath = .ok (location, entry) →
    ¬IsSource run.after settings (localeDirectory settings run.locale) location

/-- The cache that a run leaves is the one that was there before the source files were rewritten. -/
theorem find_cachePath_after {settings : Settings} {run : Run} {between left : Workspace}
    (hspares : run.SparesCache settings) (hafter : left.tree = run.after)
    (hrewritten : Rewritten settings (localeDirectory settings run.locale) between left) :
    run.after.find settings.cachePath = between.tree.find settings.cachePath := by
  have hbare := hrewritten.bare_eq.symm
  rw [← hafter]
  apply hrewritten.find_eq
  intro location entry hfound hsource
  rw [hafter] at hbare
  obtain ⟨other, hother, -⟩ := FileTree.exists_find_of_bare_eq hbare hfound
  exact hspares location other hother (isSource_of_bare_eq hbare hsource)

/-- What a run does to the cache: the catalog that was loaded keeps its names in front, and codes are
settled again. -/
theorem exists_load_after {settings : Settings} {run : Run} {old : Catalog}
    (hsucceeds : run.Succeeds settings) (hspares : run.SparesCache settings)
    (hload : Catalog.load run.before settings.cachePath = .ok old)
    (hsettled : Catalog.Settled settings.elevationPrefix old)
    (hfree : Catalog.countKey ∉ old.names) :
    ∃ new, Catalog.load run.after settings.cachePath = .ok new ∧
      Catalog.Settled settings.elevationPrefix new ∧ Catalog.countKey ∉ new.names ∧
      old.names <+: new.names := by
  obtain ⟨summary, left, hmangle, hafter⟩ := hsucceeds
  obtain ⟨loaded, between, hloaded, hrewritten, hreference, hother⟩ := mangle_eq_ok hmangle
  obtain rfl : loaded = old := Except.ok.inj (hloaded.symm.trans hload)
  rw [Catalog.load_congr (find_cachePath_after hspares hafter hrewritten)]
  by_cases hlocale : run.locale = settings.referenceLocale
  · obtain ⟨rules, stats, hbuild⟩ := hreference hlocale
    exact ⟨between.catalog, load_of_build hsettled hfree hbuild⟩
  · obtain ⟨htree, -⟩ := hother hlocale
    rw [htree]
    exact ⟨loaded, hload, hsettled, hfree, List.prefix_refl _⟩

end Run

/-- Successful runs with the same settings, the latest one first.  There is no cache before the
first run, and each later run finds the cache that the run before it left. -/
inductive History (settings : Settings) : List Run → Prop
  | first {run : Run} (hcache : run.before.exists? settings.cachePath = false)
      (hsucceeds : run.Succeeds settings) (hspares : run.SparesCache settings) :
      History settings [run]
  | next {run last : Run} {runs : List Run} (hhistory : History settings (last :: runs))
      (hcache : Catalog.load run.before settings.cachePath =
        Catalog.load last.after settings.cachePath)
      (hsucceeds : run.Succeeds settings) (hspares : run.SparesCache settings) :
      History settings (run :: last :: runs)

/-- After each run the cache is settled, and it begins with the names of every earlier one. -/
theorem History.exists_load {settings : Settings} {run : Run} {runs : List Run}
    (hhistory : History settings (run :: runs)) :
    ∃ new, Catalog.load run.after settings.cachePath = .ok new ∧
      Catalog.Settled settings.elevationPrefix new ∧ Catalog.countKey ∉ new.names ∧
      ∀ earlier ∈ runs, ∃ old, Catalog.load earlier.after settings.cachePath = .ok old ∧
        Catalog.Settled settings.elevationPrefix old ∧ old.names <+: new.names := by
  generalize hall : run :: runs = all at hhistory
  induction hhistory generalizing run runs with
  | first hcache hsucceeds hspares =>
    obtain ⟨rfl, rfl⟩ := List.cons.inj hall
    obtain ⟨new, hnew, hsettled, hfree, -⟩ := Run.exists_load_after hsucceeds hspares
      (Catalog.load_of_not_exists hcache) (Catalog.settled_empty _) (Catalog.notMem_names_empty _)
    exact ⟨new, hnew, hsettled, hfree, by simp⟩
  | @next latest last rest _ hcache hsucceeds hspares ih =>
    obtain ⟨rfl, rfl⟩ := List.cons.inj hall
    obtain ⟨old, hold, holdSettled, holdFree, hearlier⟩ := ih rfl
    obtain ⟨new, hnew, hsettled, hfree, hfront⟩ := Run.exists_load_after hsucceeds hspares
      (hcache.trans hold) holdSettled holdFree
    refine ⟨new, hnew, hsettled, hfree, ?_⟩
    rintro earlier hmem
    rcases List.mem_cons.mp hmem with rfl | hrest
    · exact ⟨old, hold, holdSettled, hfront⟩
    · obtain ⟨oldest, holdest, holdestSettled, holdestFront⟩ := hearlier earlier hrest
      exact ⟨oldest, holdest, holdestSettled, holdestFront.trans hfront⟩

/-- A name that is in the cache after some run is in the cache after every later run.  It has the
same code there, unless it is a member of the family that was cataloged before its stem, and the
stem has come in since: exactly then the code is another one. -/
theorem codes_of_history {settings : Settings} {runs : List Run}
    (hhistory : History settings runs) :
    runs.Pairwise fun later earlier => ∃ old new,
      Catalog.load earlier.after settings.cachePath = .ok old ∧
      Catalog.load later.after settings.cachePath = .ok new ∧
      Catalog.KeepsCodes settings.elevationPrefix old new := by
  have hlatest : ∀ {run runs}, History settings (run :: runs) → ∀ earlier ∈ runs, ∃ old new,
      Catalog.load earlier.after settings.cachePath = .ok old ∧
      Catalog.load run.after settings.cachePath = .ok new ∧
      Catalog.KeepsCodes settings.elevationPrefix old new := by
    intro run runs hhistory earlier hmem
    obtain ⟨new, hnew, hsettled, -, hearlier⟩ := hhistory.exists_load
    obtain ⟨old, hold, holdSettled, hfront⟩ := hearlier earlier hmem
    exact ⟨old, new, hold, hnew, holdSettled.keepsCodes hsettled hfront⟩
  induction hhistory with
  | first => exact List.pairwise_singleton _ _
  | next hhistory hcache hsucceeds hspares ih =>
    exact List.pairwise_cons.mpr ⟨hlatest (.next hhistory hcache hsucceeds hspares), ih⟩

/-- Settings with short paths and a short stem. -/
def shortSettings : Settings where
  distDir := ⟨"/d"⟩
  cachePath := ⟨"/c"⟩
  referenceLocale := "e"
  skipDirs := []
  indexFile := "i"
  frameworkPrefixes := ["x"]
  classNameIgnore := []
  frameworkIgnore := []
  elevationPrefix := "m-el"

/-- The rules of these settings. -/
def shortRules : Rules := ⟨["x"], [], []⟩

/-- The locale of these settings has an index file and one stylesheet. -/
structure HasStyle (tree : FileTree) (style : String) : Prop where
  root : tree.findLink ⟨"/d/e"⟩ = .ok (["d", "e"], .directory)
  children : ∃ index : Entry, index.isDirectory = false ∧
    tree.children ["d", "e"] = [("i", index), ("a.css", .file style.toUTF8)]
  index : tree.isFile ⟨"/d/e/i"⟩ = true
  find : tree.find ⟨"/d/e/a.css"⟩ = .ok (["d", "e", "a.css"], .file style.toUTF8)

namespace HasStyle

variable {tree : FileTree} {style : String}

theorem featureFolders_eq (hstyle : HasStyle tree style) :
    featureFolders tree shortSettings ⟨"/d/e"⟩ = .ok [⟨"/d/e"⟩] := by
  have hjoin : (⟨"/d/e"⟩ : Path).join ⟨shortSettings.indexFile⟩ = ⟨"/d/e/i"⟩ := by decide +kernel
  obtain ⟨index, hindex, hchildren⟩ := hstyle.children
  apply featureFolders_of_childless hstyle.root
  · simp only [hchildren, List.all_cons, hindex, List.all_nil]
    rfl
  · rw [hasIndex, hjoin]
    exact hstyle.index

theorem sourceFiles_eq (hstyle : HasStyle tree style) :
    sourceFiles tree ⟨"/d/e"⟩ = .ok [⟨⟨"/d/e/a.css"⟩, "a.css", .style⟩] := by
  have hpath : (⟨"/d/e"⟩ : Path).child "a.css" = ⟨"/d/e/a.css"⟩ := by decide +kernel
  have hkind : SourceKind.ofPath? ⟨"/d/e/a.css"⟩ = some .style := by decide +kernel
  have hnone : SourceKind.ofPath? ((⟨"/d/e"⟩ : Path).child "i") = none := by decide +kernel
  obtain ⟨index, -, hchildren⟩ := hstyle.children
  rw [sourceFiles_of_find (FileTree.find_of_findLink (by simp) hstyle.root), hchildren]
  simp [sourceFile?, Entry.isFile, hpath, hkind, hnone]

theorem provides (hstyle : HasStyle tree style) :
    Provides tree shortSettings ⟨"/d/e"⟩ [(.style, style)] := by
  apply provides_of_single hstyle.featureFolders_eq hstyle.sourceFiles_eq
  simp only [ReadAs, List.map_cons, List.map_nil, readSource_of_find hstyle.find]

theorem isDirectory (hstyle : HasStyle tree style) : tree.isDirectory ⟨"/d/e"⟩ = true :=
  FileTree.isDirectory_of_find (FileTree.find_of_findLink (by simp) hstyle.root)

end HasStyle

/-- A locale with one stylesheet. -/
def shortTree (style : String) : FileTree where
  entries :=
    [(["d"], .directory), (["d", "e"], .directory), (["d", "e", "i"], .file .empty),
     (["d", "e", "a.css"], .file style.toUTF8)]
  locations_nodup := by
    change [["d"], ["d", "e"], ["d", "e", "i"], ["d", "e", "a.css"]].Nodup
    decide

theorem hasStyle_shortTree (style : String) : HasStyle (shortTree style) style where
  root := FileTree.findLink_of_resolve (FileTree.resolve_of_resolveWithin 4 rfl)
  children := ⟨_, rfl, rfl⟩
  index := FileTree.isFile_of_find (FileTree.find_of_resolveWithin 5 rfl)
  find := FileTree.find_of_resolveWithin 5 rfl

theorem vacant_shortTree (style : String) :
    (shortTree style).resolve true ⟨"/c"⟩ = .ok (.vacant ["c"]) :=
  FileTree.resolve_of_resolveWithin 3 rfl

/-- The same locale with a cache. -/
def cachedTree (style cache : String) : FileTree :=
  (shortTree style).set ["c"] (.file cache.toUTF8)

theorem hasStyle_cachedTree (style cache : String) : HasStyle (cachedTree style cache) style where
  root := FileTree.findLink_of_resolve (FileTree.resolve_of_resolveWithin 4 rfl)
  children := ⟨_, rfl, rfl⟩
  index := FileTree.isFile_of_find (FileTree.find_of_resolveWithin 5 rfl)
  find := FileTree.find_of_resolveWithin 5 rfl

theorem find_cachedTree (style cache : String) :
    (cachedTree style cache).find ⟨"/c"⟩ = .ok (["c"], .file cache.toUTF8) :=
  FileTree.find_of_resolveWithin 3 rfl

theorem isSourcePath_cachedTree {style cache : String} {path : Path}
    (hpath : IsSourcePath (cachedTree style cache) shortSettings ⟨"/d/e"⟩ path) :
    path = ⟨"/d/e/a.css"⟩ := by
  obtain ⟨folders, folder, files, file, hfolders, hfolder, hfiles, hfile, rfl⟩ := hpath
  have hstyle := hasStyle_cachedTree style cache
  obtain rfl := Except.ok.inj (hstyle.featureFolders_eq.symm.trans hfolders)
  obtain rfl := List.mem_singleton.mp hfolder
  obtain rfl := Except.ok.inj (hstyle.sourceFiles_eq.symm.trans hfiles)
  obtain rfl := List.mem_singleton.mp hfile
  rfl

theorem accessible_cachedTree (style cache : String) :
    Accessible (cachedTree style cache) shortSettings ⟨"/d/e"⟩ where
  listed := by
    refine ⟨_, (hasStyle_cachedTree style cache).featureFolders_eq, ?_⟩
    intro folder hfolder
    obtain rfl := List.mem_singleton.mp hfolder
    exact ⟨_, (hasStyle_cachedTree style cache).sourceFiles_eq⟩
  readable := by
    intro path hpath
    obtain rfl := isSourcePath_cachedTree hpath
    exact ⟨style, FileTree.readText_of_find (hasStyle_cachedTree style cache).find
      (FileTree.fromUTF8?_toUTF8 style)⟩
  writable := by
    intro path hpath
    obtain rfl := isSourcePath_cachedTree hpath
    decide

theorem not_isSource_cache {style cache : String} {location : Location} {entry : Entry}
    (hsource : IsSource (cachedTree style cache) shortSettings ⟨"/d/e"⟩ location)
    (hfound : (cachedTree style cache).find ⟨"/c"⟩ = .ok (location, entry)) : False := by
  obtain ⟨path, other, hpath, hother⟩ := hsource
  obtain rfl := isSourcePath_cachedTree hpath
  rw [find_cachedTree style cache] at hfound
  rw [(hasStyle_cachedTree style cache).find] at hother
  simp only [Except.ok.injEq, Prod.mk.injEq] at hfound hother
  exact absurd (hfound.1.trans hother.1.symm) (by decide)

/-- The run for the reference locale on a tree. -/
def runOn (tree : FileTree) : Run where
  locale := "e"
  before := tree
  after := (outcome (mangle shortSettings "e") { tree }).2.tree

/-- What the scan of that run comes to with a cache. -/
def scanOn (tree : FileTree) (loaded : Catalog) : Except Fault ScanStats × Workspace :=
  outcome (scan shortSettings shortRules ⟨"/d/e"⟩)
    { tree, catalog := loaded, events := #[.building ⟨"/d/e"⟩] }

theorem scanOn_of_hasStyle {tree : FileTree} {style : String} {loaded grown : Catalog}
    (hstyle : HasStyle tree style)
    (hgrowth : (loaded.grow (shortRules.stream [(.style, style)])).exhausted = none ∧
      (loaded.grow (shortRules.stream [(.style, style)])).catalog = grown) :
    (∃ stats, (scanOn tree loaded).1 = .ok stats) ∧ (scanOn tree loaded).2.catalog = grown := by
  obtain ⟨hroom, rfl⟩ := hgrowth
  obtain ⟨stats, left, hscan, -, hcatalog⟩ := exists_scan_of_room hstyle.provides hroom
    { tree, catalog := loaded, events := #[.building ⟨"/d/e"⟩] } rfl rfl
  rw [scanOn, hscan]
  exact ⟨⟨stats, rfl⟩, hcatalog⟩

/-- The build of that run gives a result if its scan does, and the catalog can be saved and is
consistent. -/
theorem exists_build_of_scanOn {tree saved : FileTree} {loaded derived : Catalog}
    {stats : ScanStats} (hscan : (scanOn tree loaded).1 = .ok stats)
    (hderived : (scanOn tree loaded).2.catalog.deriveElevation "m-el" = derived)
    (hsave : derived.save tree ⟨"/c"⟩ = (saved, .ok ())) (hvalid : derived.validate = .ok ()) :
    ∃ built, outcome (build shortSettings shortRules ⟨"/d/e"⟩) { tree, catalog := loaded } =
        (.ok stats, built) ∧ built.tree = saved ∧ built.catalog = derived := by
  have hsame : (scanOn tree loaded).2.tree = tree := (grows_scan _ _ _ _).1
  have hsaved : ((scanOn tree loaded).2.catalog.deriveElevation "m-el").save
      (scanOn tree loaded).2.tree ⟨"/c"⟩ = (saved, .ok ()) := by
    rw [hsame, hderived, hsave]
  rw [← hderived] at hvalid
  obtain ⟨built, hbuild, htree, hcatalog⟩ :=
    exists_build_eq_ok { tree, catalog := loaded } (Prod.ext hscan rfl) hsaved hvalid
  exact ⟨built, hbuild, htree, hcatalog.trans hderived⟩

/-- A run that can load, scan and save succeeds and leaves what it saved. -/
theorem runOn_succeeds {tree : FileTree} {style : String} {loaded derived : Catalog}
    {stats : ScanStats} (hroot : tree.isDirectory ⟨"/d/e"⟩ = true)
    (hload : Catalog.load tree ⟨"/c"⟩ = .ok loaded) (hscan : (scanOn tree loaded).1 = .ok stats)
    (hderived : (scanOn tree loaded).2.catalog.deriveElevation "m-el" = derived)
    (hsave : derived.save tree ⟨"/c"⟩ = (cachedTree style derived.render, .ok ()))
    (hvalid : derived.validate = .ok ()) (hnames : "" ∉ derived.names) :
    (runOn tree).Succeeds shortSettings ∧ (runOn tree).SparesCache shortSettings ∧
      (runOn tree).after.find ⟨"/c"⟩ = .ok (["c"], .file derived.render.toUTF8) := by
  have hdirectory : localeDirectory shortSettings "e" = ⟨"/d/e"⟩ := rfl
  have hreference : "e" = shortSettings.referenceLocale := rfl
  have hrules : Rules.ofSettings shortSettings = .ok shortRules := rfl
  have hcache := find_cachedTree style derived.render
  obtain ⟨built, hbuild, htree, hcatalog⟩ := exists_build_of_scanOn hscan hderived hsave hvalid
  have haccessible : Accessible built.tree shortSettings (localeDirectory shortSettings "e") := by
    rw [htree]
    exact accessible_cachedTree style derived.render
  have hbuiltNames : "" ∉ built.catalog.names := by rwa [hcatalog]
  obtain ⟨summary, left, hmangle, hrewritten⟩ :=
    exists_mangle_eq_ok { tree } hreference hroot hrules hload hbuild hbuiltNames haccessible
  have hafter : (runOn tree).after = left.tree := by rw [runOn, hmangle]
  have hbare : left.tree.bare = (cachedTree style derived.render).bare := by
    rw [hrewritten.bare_eq, htree]
  refine ⟨⟨summary, left, hmangle, hafter.symm⟩, ?_, ?_⟩
  · intro location entry hfound hsource
    change IsSource (runOn tree).after shortSettings (localeDirectory shortSettings "e") location
      at hsource
    rw [hafter, hdirectory] at hsource
    rw [hafter] at hfound
    obtain ⟨other, hother, -⟩ := FileTree.exists_find_of_bare_eq hbare hfound
    exact not_isSource_cache (isSource_of_bare_eq hbare hsource) hother
  · rw [hafter]
    have hspared : left.tree.find ⟨"/c"⟩ = built.tree.find ⟨"/c"⟩ := by
      apply hrewritten.find_eq
      intro location entry hfound hsource
      rw [htree] at hfound hsource
      exact not_isSource_cache hsource hfound
    rw [hspared, htree, hcache]

/-- The cache of a member of the family without its stem. -/
def memberAlone : Catalog where
  entries := [("m-el2", "a0")]
  count := 1

theorem grow_member :
    (Catalog.empty.grow (shortRules.stream [(.style, ".m-el2")])).exhausted = none ∧
      (Catalog.empty.grow (shortRules.stream [(.style, ".m-el2")])).catalog = memberAlone :=
  Catalog.grow_eq_of_entries_eq (by decide +kernel)

/-- The cache after the stem has come in. -/
def memberNumbered : Catalog where
  entries := [("m-el2", "b10"), ("m-el", "b1")]
  count := memberAlone.count + 1
  names_nodup := by decide

/-- The names of both runs before the family is numbered. -/
def memberAndStem : Catalog where
  entries := [("m-el2", "a0"), ("m-el", "b1")]
  count := memberNumbered.count
  names_nodup := by decide

theorem grow_stem :
    (memberAlone.grow (shortRules.stream [(.style, ".m-el")])).exhausted = none ∧
      (memberAlone.grow (shortRules.stream [(.style, ".m-el")])).catalog = memberAndStem :=
  Catalog.grow_eq_of_entries_eq (by decide +kernel)

theorem deriveElevation_memberAndStem :
    memberAndStem.deriveElevation shortSettings.elevationPrefix = memberNumbered := by
  have hbase : memberAndStem.get? shortSettings.elevationPrefix = some "b1" := by decide
  refine Catalog.eq_of_entries_eq ?_ (Catalog.count_deriveElevation _ _)
  rw [Catalog.entries_deriveElevation hbase]
  decide

theorem makeParents_top (tree : FileTree) : tree.makeParents ⟨"/c"⟩ = .ok tree := by
  have hparent : (⟨"/c"⟩ : Path).parent? = some ⟨"/"⟩ := by decide +kernel
  have hcomponents : Path.ofComponents (⟨"/"⟩ : Path).components = ⟨"/"⟩ := by decide +kernel
  have hroot : tree.isDirectory ⟨"/"⟩ = true :=
    FileTree.isDirectory_of_find (FileTree.find_of_resolveWithin 3 rfl)
  rw [FileTree.makeParents, hparent]
  apply FileTree.makeDirectoriesAt_of_isDirectory
  rw [List.reverse_reverse, hcomponents]
  exact fun _ => hroot

theorem save_short {tree : FileTree} (catalog : Catalog)
    (hresolve : tree.resolve true ⟨"/c"⟩ = .ok (.vacant ["c"]) ∨
      ∃ content, tree.find ⟨"/c"⟩ = .ok (["c"], .file content)) :
    catalog.save tree ⟨"/c"⟩ = (tree.set ["c"] (.file catalog.render.toUTF8), .ok ()) :=
  Catalog.save_eq_ok (makeParents_top _)
    (FileTree.writeBytes_eq_ok_iff.mpr ⟨by decide, ["c"], hresolve, rfl⟩)

theorem load_cachedTree (style : String) {catalog : Catalog}
    (hfree : Catalog.countKey ∉ catalog.names) :
    Catalog.load (cachedTree style catalog.render) ⟨"/c"⟩ = .ok catalog := by
  have hcache := find_cachedTree style catalog.render
  exact Catalog.load_eq_ok_of_readText hfree
    (FileTree.readText_of_find hcache (FileTree.fromUTF8?_toUTF8 _))

theorem runOn_member : (runOn (shortTree ".m-el2")).Succeeds shortSettings ∧
    (runOn (shortTree ".m-el2")).SparesCache shortSettings ∧
    (runOn (shortTree ".m-el2")).after.find ⟨"/c"⟩ =
      .ok (["c"], .file memberAlone.render.toUTF8) := by
  have hload : Catalog.load (shortTree ".m-el2") ⟨"/c"⟩ = .ok .empty :=
    Catalog.load_of_not_exists (FileTree.not_exists_of_vacant (vacant_shortTree _))
  obtain ⟨⟨stats, hstats⟩, hgrown⟩ :=
    scanOn_of_hasStyle (hasStyle_shortTree ".m-el2") grow_member
  have hsave : memberAlone.save (shortTree ".m-el2") ⟨"/c"⟩ =
      (cachedTree ".m-el2" memberAlone.render, .ok ()) := save_short _ (.inl (vacant_shortTree _))
  refine runOn_succeeds (hasStyle_shortTree _).isDirectory hload hstats ?_ hsave (by decide)
    (by decide)
  rw [hgrown]
  exact Catalog.deriveElevation_of_notMem (by decide)

theorem runOn_stem :
    (runOn (cachedTree ".m-el" memberAlone.render)).Succeeds shortSettings ∧
    (runOn (cachedTree ".m-el" memberAlone.render)).SparesCache shortSettings ∧
    (runOn (cachedTree ".m-el" memberAlone.render)).after.find ⟨"/c"⟩ =
      .ok (["c"], .file memberNumbered.render.toUTF8) := by
  have hcache := find_cachedTree ".m-el" memberAlone.render
  have hload : Catalog.load (cachedTree ".m-el" memberAlone.render) ⟨"/c"⟩ = .ok memberAlone :=
    load_cachedTree ".m-el" (by decide)
  obtain ⟨⟨stats, hstats⟩, hgrown⟩ :=
    scanOn_of_hasStyle (hasStyle_cachedTree ".m-el" memberAlone.render) grow_stem
  have hsave : memberNumbered.save (cachedTree ".m-el" memberAlone.render) ⟨"/c"⟩ =
      (cachedTree ".m-el" memberNumbered.render, .ok ()) := save_short _ (.inr ⟨_, hcache⟩)
  refine runOn_succeeds (hasStyle_cachedTree _ _).isDirectory hload hstats ?_ hsave (by decide)
    (by decide)
  rw [hgrown]
  exact deriveElevation_memberAndStem

theorem load_runOn_member :
    Catalog.load (runOn (shortTree ".m-el2")).after ⟨"/c"⟩ = .ok memberAlone := by
  have hcache := runOn_member.2.2.trans (find_cachedTree "" memberAlone.render).symm
  rw [Catalog.load_congr hcache]
  exact load_cachedTree "" (by decide)

theorem load_runOn_stem :
    Catalog.load (runOn (cachedTree ".m-el" memberAlone.render)).after ⟨"/c"⟩ =
      .ok memberNumbered := by
  have hcache := runOn_stem.2.2.trans (find_cachedTree "" memberNumbered.render).symm
  rw [Catalog.load_congr hcache]
  exact load_cachedTree "" (by decide)

/-- The two runs, the later one first. -/
theorem history_member_stem :
    History shortSettings
      [runOn (cachedTree ".m-el" memberAlone.render), runOn (shortTree ".m-el2")] := by
  obtain ⟨hfirst, hfirstSpares, hfirstCache⟩ := runOn_member
  obtain ⟨hsecond, hsecondSpares, -⟩ := runOn_stem
  refine .next (.first ?_ hfirst hfirstSpares) ?_ hsecond hsecondSpares
  · exact FileTree.not_exists_of_vacant (vacant_shortTree ".m-el2")
  · exact Catalog.load_congr ((find_cachedTree _ _).trans hfirstCache.symm)

theorem codes_of_history_member_stem :
    ∃ now, memberNumbered.get? "m-el2" = some now ∧ now ≠ "a0" := by
  have hpairwise := codes_of_history history_member_stem
  obtain ⟨old, new, hold, hnew, hkeeps⟩ :=
    List.rel_of_pairwise_cons hpairwise List.mem_cons_self
  obtain rfl := Except.ok.inj (hold.symm.trans load_runOn_member)
  obtain rfl := Except.ok.inj (hnew.symm.trans load_runOn_stem)
  obtain ⟨now, hnow, hiff⟩ := hkeeps "m-el2" "a0" (by decide)
  exact ⟨now, hnow, fun hsame => hiff.mp hsame (by decide)⟩

/-- A code changes over successful runs. -/
theorem exists_history_changing_code :
    ∃ settings runs, History settings runs ∧
      ¬runs.Pairwise fun later earlier => ∀ old new name code,
        Catalog.load earlier.after settings.cachePath = .ok old →
        Catalog.load later.after settings.cachePath = .ok new →
        old.get? name = some code → new.get? name = some code := by
  refine ⟨shortSettings, _, history_member_stem, ?_⟩
  intro hpairwise
  have hsame := List.rel_of_pairwise_cons hpairwise List.mem_cons_self memberAlone memberNumbered
    "m-el2" "a0" load_runOn_member load_runOn_stem (by decide)
  exact absurd hsame (by decide)

end SelectorMangling.Site
