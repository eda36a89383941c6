import SelectorMangling.Proofs.Rewriting.Greedy
import SelectorMangling.Proofs.Site.History
import SelectorMangling.Proofs.Site.Interruption
import SelectorMangling.Proofs.Site.Locale

/-!
# A run for the reference locale is all or nothing

The scan goes through the same files as the rewriting after it, and nothing but the cache is written
in between.  Whatever the rewriting cannot read has stopped the scan, so that either every source
file is rewritten or the run fails and none is.

The one exception is a cache that names the empty selector.  With it a text may have no rewriting,
and a run that comes to such a text is stuck there.
-/

namespace SelectorMangling.Site

open FileTree

variable {settings : Settings} {rules : Rules} {root : Path} {before left : Workspace}

/-! ## Between the scan and the rewriting -/

/-- After a scan, saving writes the cache and nothing in the output. -/
theorem written_of_scan_of_save {stats : ScanStats} {scanned : Workspace}
    (hscan : outcome (scan settings rules root) (scanStart root before) = (.ok stats, scanned))
    (hsave : left.catalog.save scanned.tree settings.cachePath = (left.tree, .ok ()))
    (hlocated : settings.IsLocated) (hplain : before.tree.IsPlain) :
    Written (· <+: settings.cachePath.location) before.tree left.tree ∧
      left.tree.readText settings.cachePath = .ok left.catalog.render := by
  have htree : scanned.tree = before.tree := (scan_eq_ok hscan).tree_eq
  rw [htree] at hsave
  exact ⟨(Catalog.written_of_save hplain hlocated.denotes_cachePath hsave).1,
    (Catalog.readText_of_save hsave).2⟩

/-- The source files are the same before and after the cache is saved. -/
theorem isSource_iff_of_written {tree later : FileTree} {name : String} {location : Location}
    (hlocated : settings.IsLocated) (hindex : IsEntryName settings.indexFile)
    (hroot : IsRoot tree root (settings.distDir.location ++ [name]))
    (hwritten : Written (· <+: settings.cachePath.location) tree later) :
    IsSource later settings root location ↔ IsSource tree settings root location := by
  apply hroot.isSource_congr (hroot.written hwritten) hindex
  intro place hplace
  exact entryAt_of_written hlocated hwritten ((List.prefix_append _ _).trans hplace)

/-! ## All, nothing, or stuck -/

/-- A run for the reference locale has rewritten every source file and nothing else in the output, by
the catalog that it has built. -/
structure RewritesAll (settings : Settings) (tree : FileTree) (summary : Summary)
    (left : Workspace) : Prop where
  counts : ∃ locations : List Location, locations.Nodup ∧
    (∀ location, location ∈ locations ↔
      IsSource tree settings (localeDirectory settings settings.referenceLocale) location) ∧
    summary.scannedFiles = locations.length ∧ summary.rewrittenFiles = locations.length
  growth : ∃ loaded, Catalog.load tree settings.cachePath = .ok loaded ∧
    loaded.size + summary.addedSelectors = left.catalog.size
  rewritten : ∀ location,
    IsSource tree settings (localeDirectory settings settings.referenceLocale) location →
    RewrittenAt left.catalog.rewriter tree left.tree location
  spared : ∀ location, settings.distDir.location <+: location →
    ¬IsSource tree settings (localeDirectory settings settings.referenceLocale) location →
    left.tree.entryAt location = tree.entryAt location

/-- A run for the reference locale has left the output as it was, and the cache too unless the
catalog that it has built is inconsistent. -/
structure LeavesSite (settings : Settings) (tree : FileTree) (fault : Fault)
    (left : Workspace) : Prop where
  output : ∀ location, settings.distDir.location <+: location →
    left.tree.entryAt location = tree.entryAt location
  unchanged : ¬fault.IsInconsistent → left.tree = tree
  cache : fault.IsInconsistent → ∃ rules loaded stats scanned,
    Prepared settings settings.referenceLocale tree rules loaded ∧
    outcome (scan settings rules (localeDirectory settings settings.referenceLocale))
      (scanStart (localeDirectory settings settings.referenceLocale)
        { tree, catalog := loaded }) = (.ok stats, scanned) ∧
    left.tree.readText settings.cachePath =
      .ok (scanned.catalog.deriveElevation settings.elevationPrefix).render

/-- A run for the reference locale does not come back from a source file that the catalog does not
rewrite.  The source files before it are rewritten, and the rest of the output is as it was.  This
takes a cache with the empty name. -/
structure GetsStuck (settings : Settings) (tree : FileTree) (file : Path) (left : Workspace) :
    Prop where
  emptyName : ∃ loaded, Catalog.load tree settings.cachePath = .ok loaded ∧ "" ∈ loaded.names
  denotes : file.Denotes file.location
  unrewritten : ∃ text : String, tree.entryAt file.location = some (.file text.toUTF8) ∧
    left.catalog.rewrite text = none
  halts : HaltsAt (IsSource tree settings (localeDirectory settings settings.referenceLocale))
    left.catalog tree left.tree file.location
  spared : ∀ location, settings.distDir.location <+: location →
    ¬IsSource tree settings (localeDirectory settings settings.referenceLocale) location →
    left.tree.entryAt location = tree.entryAt location

theorem leavesSite_of_tree_eq {tree : FileTree} {fault : Fault}
    (hfault : ¬fault.IsInconsistent) (htree : left.tree = tree) :
    LeavesSite settings tree fault left where
  output := by
    intro location _
    rw [htree]
  unchanged := fun _ => htree
  cache := fun hinconsistent => absurd hinconsistent hfault

/-- A build that fails comes back and leaves the output. -/
theorem leavesSite_of_build {tree : FileTree} {loaded : Catalog} {fault : Fault}
    {built : Workspace} (hlocated : settings.IsLocated) (hplain : tree.IsPlain)
    (hprepared : Prepared settings settings.referenceLocale tree rules loaded)
    (hbuild : outcome (build settings rules (localeDirectory settings settings.referenceLocale))
      { tree, catalog := loaded } = (.error fault, built))
    (hleft : left.tree = built.tree) :
    fault.isReturned = true ∧ LeavesSite settings tree fault left := by
  have hends := buildEnds settings rules
    (localeDirectory settings settings.referenceLocale) { tree, catalog := loaded }
  rw [hbuild] at hends
  cases hends with
  | scanFails hscan =>
    have hscanned := (grows_scan settings rules
      (localeDirectory settings settings.referenceLocale)
      (scanStart (localeDirectory settings settings.referenceLocale)
        { tree, catalog := loaded })).1
    rw [hscan] at hscanned
    obtain ⟨hreturned, hfault⟩ := isReturned_of_scan hscan
    exact ⟨hreturned, leavesSite_of_tree_eq hfault (hleft.trans hscanned)⟩
  | @saveFails stats scanned _ cause hscan hcatalog hsave =>
    have hscanned : scanned.tree = tree := (scan_eq_ok hscan).tree_eq
    rw [hscanned] at hsave
    have hsaved := Catalog.save_eq_error hlocated.cachePath_ends hplain
      hlocated.denotes_cachePath hprepared.load hsave
    exact ⟨rfl, leavesSite_of_tree_eq not_false (hleft.trans hsaved)⟩
  | @inconsistent stats scanned _ cause hscan hcatalog hsave hinvalid =>
    obtain ⟨hwritten, hcache⟩ := written_of_scan_of_save hscan hsave hlocated hplain
    rw [← hleft] at hwritten hcache
    refine ⟨rfl, fun location => entryAt_of_written hlocated hwritten, ?_, ?_⟩
    · intro hconsistent
      exact absurd trivial hconsistent
    · intro _
      rw [hcatalog] at hcache
      exact ⟨rules, loaded, stats, scanned, hprepared, hscan, hcache⟩

section Built

variable {tree : FileTree} {loaded : Catalog} {stats : ScanStats} {built : Workspace}

/-- A build adds no empty name to a catalog. -/
theorem empty_mem_of_build
    (hbuild : outcome (build settings rules root) { tree, catalog := loaded } = (.ok stats, built))
    (hempty : "" ∈ built.catalog.names) : "" ∈ loaded.names := by
  have hends := buildEnds settings rules root { tree, catalog := loaded }
  rw [hbuild] at hends
  rw [hends.names_eq] at hempty
  rcases (grows_scan settings rules root _).2.mem_names hempty with hold | ⟨kind, content, hnew⟩
  · exact hold
  · have hcompound := Rules.isCompound_of_mem_candidates hnew
    unfold Extraction.IsCompound at hcompound
    exact absurd hcompound (by decide)

variable (hlocated : settings.IsLocated) (hindex : IsEntryName settings.indexFile)
  (hplain : tree.IsPlain)
  (hprepared : Prepared settings settings.referenceLocale tree rules loaded)
  (hbuild : outcome (build settings rules (localeDirectory settings settings.referenceLocale))
    { tree, catalog := loaded } = (.ok stats, built))

include hlocated hindex hplain hprepared hbuild

/-- A build that ends without a fault leaves the output as it was, so that the rewriting behind it
meets the same source files. -/
theorem exists_isRoot_of_build :
    ∃ name,
      IsRoot tree (localeDirectory settings settings.referenceLocale)
        (settings.distDir.location ++ [name]) ∧
      IsRoot built.tree (localeDirectory settings settings.referenceLocale)
        (settings.distDir.location ++ [name]) ∧
      (∀ location,
        IsSource built.tree settings (localeDirectory settings settings.referenceLocale) location ↔
          IsSource tree settings (localeDirectory settings settings.referenceLocale) location) ∧
      ∀ location, settings.distDir.location <+: location →
        built.tree.entryAt location = tree.entryAt location := by
  obtain ⟨name, -, hroot⟩ :=
    hprepared.exists_isRoot hlocated hplain hlocated.isValidLocale_reference
  obtain ⟨scanned, hscan, -, hsave⟩ := exists_scan_of_build hbuild
  obtain ⟨hwritten, -⟩ := written_of_scan_of_save hscan hsave hlocated hplain
  exact ⟨name, hroot, hroot.written hwritten,
    fun _ => isSource_iff_of_written hlocated hindex hroot hwritten,
    fun _ => entryAt_of_written hlocated hwritten⟩

/-- A build that ends without a fault and the rewriting after it are all that a run does. -/
theorem rewritesAll_of_rewrite {count : Nat} {summary : Summary}
    (hrewrite : outcome (rewrite settings (localeDirectory settings settings.referenceLocale))
      built = (.ok count, left))
    (hscannedFiles : summary.scannedFiles = stats.scannedFiles)
    (hadded : summary.addedSelectors = stats.addedSelectors)
    (hcount : summary.rewrittenFiles = count) : RewritesAll settings tree summary left := by
  obtain ⟨name, hroot, hbuilt, hsame, hentry⟩ :=
    exists_isRoot_of_build hlocated hindex hplain hprepared hbuild
  obtain ⟨scanned, hscan, hcatalog, -⟩ := exists_scan_of_build hbuild
  obtain ⟨-, hscannedCount, hscannedSize, -⟩ := scan_eq_ok hscan
  obtain ⟨-, hleftCatalog, hrewrittenCount⟩ := rewrite_eq_ok hrewrite
  obtain ⟨hlast, htexts⟩ := rewritten_of_isRoot hbuilt hrewrite
  refine ⟨?_, ⟨loaded, hprepared.load, ?_⟩, ?_, ?_⟩
  · refine ⟨_, hroot.nodup_locations settings, fun _ => hroot.mem_locations_iff, ?_, ?_⟩
    · rw [hscannedFiles, hscannedCount, List.length_map]
      exact Nat.zero_add _
    · -- The files that are rewritten are listed anew, and they are the same ones.
      rw [hcount, hrewrittenCount, List.length_map]
      exact hroot.length_sources_eq hbuilt hsame
  · rw [hadded, hleftCatalog, hcatalog, Catalog.size_deriveElevation]
    exact hscannedSize
  · intro location hsource
    have hbelow := (List.prefix_append _ _).trans (hroot.base_prefix hsource)
    rw [hleftCatalog]
    exact (htexts location ((hsame location).mpr hsource)).congr (hentry location hbelow)
  · intro location hbelow hspared
    rw [hlast.entryAt_eq (mt (hsame location).mp hspared), hentry location hbelow]

/-- After a build that ends without a fault, only a text without a rewriting stops the run. -/
theorem getsStuck_of_rewrite {fault : Fault}
    (hrewrite : outcome (rewrite settings (localeDirectory settings settings.referenceLocale))
      built = (.error fault, left)) :
    ∃ file, fault = .stuck file ∧ GetsStuck settings tree file left := by
  obtain ⟨name, hroot, hbuilt, hsame, hspared⟩ :=
    exists_isRoot_of_build hlocated hindex hplain hprepared hbuild
  obtain ⟨scanned, hscan, -, -⟩ := exists_scan_of_build hbuild
  have hentry : ∀ location,
      IsSource tree settings (localeDirectory settings settings.referenceLocale) location →
        built.tree.entryAt location = tree.entryAt location := fun location hsource =>
    hspared location ((List.prefix_append _ _).trans (hroot.base_prefix hsource))
  have hrewritten := rewritten_rewrite settings
    (localeDirectory settings settings.referenceLocale) built
  rw [hrewrite] at hrewritten
  obtain ⟨file, hpath, hstops, hhalts⟩ := hbuilt.haltsAt hrewrite
  have hsource := (hsame _).mp hhalts.isSource
  cases hstops with
  | notText hfile hnoText =>
    obtain ⟨text, htext⟩ := exists_text_of_scan
      (show IsRoot (scanStart (localeDirectory settings settings.referenceLocale)
        { tree, catalog := loaded }).tree _ _ from hroot) hscan hsource
    have hbytes := (hentry _ hsource).symm.trans hfile
    rw [show tree.entryAt file.location = _ from htext, Option.some.injEq, Entry.file.injEq]
      at hbytes
    rw [← hbytes, fromUTF8?_toUTF8] at hnoText
    contradiction
  | @stuck text hfile hnone =>
    rw [← hrewritten.catalog_eq] at hnone hhalts
    have hempty : "" ∈ built.catalog.names := by
      by_contra hnames
      rw [← hrewritten.catalog_eq] at hnames
      obtain ⟨_, -, hsome⟩ := Rewriting.exists_greedy_rewrite hnames text
      rw [hsome] at hnone
      contradiction
    refine ⟨file, rfl, ⟨loaded, hprepared.load, empty_mem_of_build hbuild hempty⟩, hpath,
      ⟨text, hentry _ hsource ▸ hfile, hnone⟩, ⟨hsource, ?_, ?_⟩, ?_⟩
    · intro location hearlier hbefore
      exact (hhalts.earlier location ((hsame location).mpr hearlier) hbefore).congr
        (hentry location hearlier)
    · intro location hlater hnot
      rw [hhalts.spared location ((hsame location).mpr hlater) hnot, hentry location hlater]
    · intro location hbelow hother
      rw [hrewritten.entryAt_eq location (mt (hsame location).mp hother),
        hspared location hbelow]

end Built

/-- A settings file that asks for the short settings. -/
def shortSettingsText : String :=
  "dist_dir=\"/d\"\ncache_path=\"/c\"\nreference_locale=\"e\"\nskip_dirs=[]\n" ++
    "index_file=\"i\"\nframework_prefixes=[\"x\"]\nclass_name_ignore=[]\n" ++
    "framework_ignore=[]\nelevation_prefix=\"m-el\""

def shortSettingsTree : FileTree where
  entries := [(["f"], .file shortSettingsText.toUTF8)]

theorem ofOptions_of_find {tree : FileTree} (hcurrent : tree.current = [])
    (hfind : tree.find ⟨"/f"⟩ = .ok (["f"], .file shortSettingsText.toUTF8)) :
    Settings.ofOptions tree { config := some ⟨"/f"⟩ } = .ok shortSettings := by
  have hparse : Settings.parse shortSettingsText = .ok shortSettings := by decide +kernel
  have hlocate : (shortSettings.override { config := some ⟨"/f"⟩ }).locate tree.currentPath =
      shortSettings := by
    rw [FileTree.currentPath, hcurrent]
    decide +kernel
  exact Settings.ofOptions_of_readText rfl
    (FileTree.readText_of_find hfind (FileTree.fromUTF8?_toUTF8 _)) hparse hlocate
    (by decide +kernel)

theorem ofOptions_shortSettings :
    Settings.ofOptions shortSettingsTree { config := some ⟨"/f"⟩ } = .ok shortSettings :=
  ofOptions_of_find rfl (FileTree.find_of_resolveWithin 3 rfl)

/-- A locale with a stylesheet that is no text, and a cache. -/
def spoiltTree : FileTree :=
  (cachedTree "" memberAlone.render).set ["d", "e", "a.css"] (.file ⟨#[255]⟩)

theorem isSource_cachedTree (style cache : String) :
    IsSource (cachedTree style cache) shortSettings ⟨"/d/e"⟩ ["d", "e", "a.css"] := by
  have hstyle := hasStyle_cachedTree style cache
  exact ⟨_, _, ⟨_, _, _, _, hstyle.featureFolders_eq, List.mem_singleton_self _,
    hstyle.sourceFiles_eq, List.mem_singleton_self _, rfl⟩, hstyle.find⟩

theorem isSource_spoiltTree :
    IsSource spoiltTree shortSettings ⟨"/d/e"⟩ ["d", "e", "a.css"] := by
  have hbare : (cachedTree "" memberAlone.render).bare = spoiltTree.bare := rfl
  exact isSource_of_bare_eq hbare (isSource_cachedTree _ _)

theorem load_spoiltTree : Catalog.load spoiltTree ⟨"/c"⟩ = .ok memberAlone := by
  have hcache := find_cachedTree "" memberAlone.render
  have hbare : (cachedTree "" memberAlone.render).bare = spoiltTree.bare := rfl
  have hfind := FileTree.find_file_of_bare_eq hbare hcache rfl
  rw [Catalog.load_congr (hfind.trans hcache.symm)]
  exact load_cachedTree "" (by decide)

/-- A catalog with the empty name only, and with an empty code. -/
def emptyName : Catalog where
  entries := [("", "")]
  count := memberAlone.count
  names_nodup := by decide

/-- The empty name stands behind the dot, and behind its code again. -/
theorem rewrite_emptyName : emptyName.rewrite ".a{}" = none := by
  have hstands : Rewriting.Stands emptyName ".a{}".toList 1 "" :=
    ⟨by decide, List.nil_prefix, by unfold Rewriting.IsBoundaryAt; decide,
      by unfold Rewriting.IsBoundaryAt; decide⟩
  apply Rewriting.rewrite_eq_none_of_first (by decide) ⟨hstands, ?_⟩
  · intro earlier hearlier hcandidate
    obtain rfl : earlier = 0 := Nat.lt_one_iff.mp hearlier
    exact absurd hcandidate.1 (by decide)
  · intro other hother
    obtain rfl : other = "" := List.mem_singleton.mp hother.cataloged
    exact Nat.le_refl _

/-- A locale with a stylesheet, and a cache with the empty name. -/
def unendingTree : FileTree := cachedTree ".a{}" emptyName.render

theorem prepared_unendingTree :
    Prepared shortSettings "e" unendingTree shortRules emptyName where
  directory := (hasStyle_cachedTree _ _).isDirectory
  rules := rfl
  load := load_cachedTree ".a{}" (by decide)

/-- The stylesheet has no name to be cataloged. -/
theorem grow_emptyName : (emptyName.grow (shortRules.stream [(.style, ".a{}")])).exhausted = none ∧
    (emptyName.grow (shortRules.stream [(.style, ".a{}")])).catalog = emptyName :=
  Catalog.grow_eq_of_entries_eq (by decide +kernel)

theorem exists_build_unendingTree :
    ∃ stats built, outcome (build shortSettings shortRules (localeDirectory shortSettings "e"))
        { tree := unendingTree, catalog := emptyName } = (.ok stats, built) ∧
      built.tree = unendingTree ∧ built.catalog = emptyName := by
  obtain ⟨⟨stats, hstats⟩, hgrown⟩ :=
    scanOn_of_hasStyle (hasStyle_cachedTree ".a{}" emptyName.render) grow_emptyName
  have hderived : (scanOn unendingTree emptyName).2.catalog.deriveElevation "m-el" =
      emptyName := by
    rw [unendingTree, hgrown]
    exact Catalog.deriveElevation_of_notMem (by decide)
  have hsave : emptyName.save unendingTree ⟨"/c"⟩ = (unendingTree, .ok ()) :=
    save_short _ (.inr ⟨_, find_cachedTree ".a{}" emptyName.render⟩)
  exact ⟨_, exists_build_of_scanOn hstats hderived hsave (by decide)⟩

/-- The build succeeds, and the rewriting behind it does not end. -/
theorem mangle_unendingTree :
    ∃ file left, outcome (mangle shortSettings "e") { tree := unendingTree } =
      (.error (.stuck file), left) := by
  have hreference : "e" = shortSettings.referenceLocale := rfl
  have hlocated := Settings.isLocated_of_ofOptions ofOptions_shortSettings
  have hplain : unendingTree.IsPlain := by decide
  obtain ⟨stats, built, hbuild, htree, hcatalog⟩ := exists_build_unendingTree
  obtain ⟨events, hbuildReference⟩ := outcome_buildReference shortSettings shortRules "e"
    { tree := unendingTree, catalog := emptyName }
  rw [hbuild] at hbuildReference
  have hprepared :
      Prepared shortSettings "e" (Workspace.tree { tree := unendingTree }) _ emptyName :=
    prepared_unendingTree
  rw [outcome_mangle_of_prepared hprepared, if_pos hreference, outcome_bind, hbuildReference]
  dsimp only
  rw [rewriteReady, outcome_bind]
  cases hrewrite : outcome (rewrite shortSettings (localeDirectory shortSettings "e")) built with
  | mk result left =>
    cases result with
    | error fault =>
      obtain ⟨file, rfl, -⟩ := getsStuck_of_rewrite hlocated (by decide) hplain
        prepared_unendingTree hbuild hrewrite
      exact ⟨file, left, rfl⟩
    | ok count =>
      obtain ⟨name, -, hroot⟩ := prepared_unendingTree.exists_isRoot hlocated hplain
        hlocated.isValidLocale_reference
      rw [← htree] at hroot
      have hsource : IsSource built.tree shortSettings (localeDirectory shortSettings "e")
          ["d", "e", "a.css"] := by
        rw [htree]
        exact isSource_cachedTree _ _
      obtain ⟨text, new, hbefore, hnew, -⟩ := (rewritten_of_isRoot hroot hrewrite).2 _ hsource
      have hheld : unendingTree.entryAt ["d", "e", "a.css"] = some (.file ".a{}".toUTF8) := rfl
      rw [htree, hheld] at hbefore
      obtain rfl : ".a{}" = text := String.toByteArray_inj.mp (by simpa using hbefore)
      rw [hcatalog] at hnew
      exact absurd (rewrite_emptyName.symm.trans hnew) (by simp)

end SelectorMangling.Site
