import SelectorMangling.Proofs.Site.Agreement
import SelectorMangling.Proofs.Site.Order
import SelectorMangling.Proofs.Site.Reference

/-!
# What a run may change

A run writes to the source files of its locale and, if it builds the catalog, to the cache.  It makes
the directories above the cache and nothing else, and it removes nothing.
-/

namespace SelectorMangling.Site

open FileTree

variable {settings : Settings} {locale : String} {rules : Rules} {root : Path}
  {tree later : FileTree} {loaded : Catalog} {before between left : Workspace}

/-! ## Before the rewriting -/

/-- A later tree differs from an earlier one at most by the cache that a run for the reference locale
has saved. -/
inductive CacheOnly (settings : Settings) (locale : String) (tree : FileTree) : FileTree → Prop
  | same : CacheOnly settings locale tree tree
  | saved {later : FileTree} {content : ByteArray} (hlocale : locale = settings.referenceLocale)
      (hwritten : Written (· <+: settings.cachePath.location) tree later)
      (hcache : later.entryAt settings.cachePath.location = some (.file content)) :
      CacheOnly settings locale tree later

namespace CacheOnly

theorem of_eq (htree : later = tree) : CacheOnly settings locale tree later := htree ▸ .same

theorem of_save {catalog : Catalog} (hlocated : settings.IsLocated) (hplain : tree.IsPlain)
    (hlocale : locale = settings.referenceLocale)
    (hsave : catalog.save tree settings.cachePath = (later, .ok ())) :
    CacheOnly settings locale tree later := by
  obtain ⟨hwritten, hcache⟩ := Catalog.written_of_save hplain hlocated.denotes_cachePath hsave
  exact .saved hlocale hwritten hcache

theorem written (hcacheOnly : CacheOnly settings locale tree later) :
    Written (· <+: settings.cachePath.location) tree later := by
  cases hcacheOnly with
  | same => exact .refl
  | saved _ hwritten _ => exact hwritten

/-- No other file than the cache holds something new. -/
theorem of_changed (hcacheOnly : CacheOnly settings locale tree later) (hplain : tree.IsPlain)
    {location : Location} {content : ByteArray}
    (hfile : later.entryAt location = some (.file content))
    (hchanged : tree.entryAt location ≠ some (.file content)) :
    locale = settings.referenceLocale ∧ location = settings.cachePath.location := by
  cases hcacheOnly with
  | same => exact absurd hfile hchanged
  | saved hlocale hwritten hcache =>
    have hprefix : location <+: settings.cachePath.location := by
      by_contra hspared
      exact hchanged ((hwritten.entryAt_eq hspared).symm.trans hfile)
    obtain ⟨names, hnames⟩ := hprefix
    by_cases hnil : names = []
    · rw [hnil, List.append_nil] at hnames
      exact ⟨hlocale, hnames⟩
    · -- What lies above the cache is a directory.
      have hdirectory : later.entryAt location = some .directory := by
        apply (hwritten.isPlain hplain).liesInDirectories.entryAt_of_append hnil
        rw [hnames, hcache]
        rfl
      simp [hfile] at hdirectory

end CacheOnly

/-- However a build ends, it leaves all files but the cache. -/
theorem BuildEnds.cacheOnly {result : Except Fault ScanStats}
    (hends : BuildEnds settings rules root before result left) (hlocated : settings.IsLocated)
    (hplain : before.tree.IsPlain) (hlocale : locale = settings.referenceLocale)
    (hload : Catalog.load before.tree settings.cachePath = .ok loaded) :
    CacheOnly settings locale before.tree left.tree := by
  have hscanned : ∀ {stats : ScanStats} {scanned : Workspace},
      outcome (scan settings rules root) (scanStart root before) = (.ok stats, scanned) →
        scanned.tree = before.tree :=
    fun hscan => (scan_eq_ok hscan).tree_eq
  cases hends with
  | scanFails hscan =>
    have htree := (grows_scan settings rules root (scanStart root before)).1
    rw [hscan] at htree
    exact .of_eq htree
  | saveFails hscan _ hsave =>
    rw [hscanned hscan] at hsave
    exact .of_eq (Catalog.save_eq_error hlocated.cachePath_ends hplain hlocated.denotes_cachePath
      hload hsave)
  | inconsistent hscan _ hsave _ =>
    rw [hscanned hscan] at hsave
    exact .of_save hlocated hplain hlocale hsave
  | done hscan _ hsave _ =>
    rw [hscanned hscan] at hsave
    exact .of_save hlocated hplain hlocale hsave

namespace Ready

variable {stats : ScanStats}

theorem cacheOnly (hready : Ready settings locale rules loaded before stats between)
    (hlocated : settings.IsLocated) (hplain : before.tree.IsPlain)
    (hload : Catalog.load before.tree settings.cachePath = .ok loaded) :
    CacheOnly settings locale before.tree between.tree := by
  cases hready with
  | built hlocale hbuild =>
    have hends := buildEnds settings rules (localeDirectory settings locale)
      { before with catalog := loaded }
    rw [hbuild] at hends
    exact hends.cacheOnly hlocated hplain hlocale hload
  | used _ htree _ => exact .of_eq htree

/-- The catalog to rewrite with is the one in the cache. -/
theorem load_eq (hready : Ready settings locale rules loaded before stats between)
    (hlocated : settings.IsLocated) (hplain : before.tree.IsPlain)
    (hload : Catalog.load before.tree settings.cachePath = .ok loaded) :
    Catalog.load between.tree settings.cachePath = .ok between.catalog := by
  cases hready with
  | built _ hbuild =>
    let start : Workspace := { before with catalog := loaded }
    have hstart : start.tree.IsPlain := hplain
    have hstartLoad : Catalog.load start.tree settings.cachePath = .ok start.catalog := hload
    obtain ⟨-, hcached, hfree⟩ := cached_of_build hlocated hstart hstartLoad hbuild
    exact hcached.load_eq_ok hlocated hfree
  | used _ htree hcatalog => rw [htree, hcatalog, hload]

end Ready

/-! ## The whole run -/

/-- Every file that is new or holds something new is a source file of the locale or the cache, and
the cache only if the locale is the reference locale.  No file is gone. -/
structure Confined (settings : Settings) (locale : String) (tree later : FileTree) : Prop where
  changed : ∀ location content, later.entryAt location = some (.file content) →
    tree.entryAt location ≠ some (.file content) →
    LiesInFeatureFolder tree settings (localeDirectory settings locale).location location ∨
      locale = settings.referenceLocale ∧ location = settings.cachePath.location
  kept : ∀ location content, tree.entryAt location = some (.file content) →
    ∃ new, later.entryAt location = some (.file new)

theorem CacheOnly.confined (hcacheOnly : CacheOnly settings locale tree later)
    (hplain : tree.IsPlain) : Confined settings locale tree later where
  changed _ _ hfile hchanged := .inr (hcacheOnly.of_changed hplain hfile hchanged)
  kept _ _ hfile := hcacheOnly.written.exists_file hfile

theorem CacheOnly.confined_of_rewritten {name : String}
    (hcacheOnly : CacheOnly settings locale tree between.tree) (hlocated : settings.IsLocated)
    (hindex : IsEntryName settings.indexFile)
    (hroot : IsRoot tree (localeDirectory settings locale) (settings.distDir.location ++ [name]))
    (hrewritten : Rewritten settings (localeDirectory settings locale) between left) :
    Confined settings locale tree left.tree where
  changed := by
    intro location content hfile hchanged
    by_cases hsource : IsSource tree settings (localeDirectory settings locale) location
    · rw [hroot.denotes.location_eq]
      exact .inl ((hroot.isSource_iff_lies hindex).mp hsource)
    · rw [← isSource_iff_of_written hlocated hindex hroot hcacheOnly.written] at hsource
      rw [hrewritten.entryAt_eq location hsource] at hfile
      exact .inr (hcacheOnly.of_changed hroot.plain hfile hchanged)
  kept := by
    intro location content hfile
    obtain ⟨new, hnew⟩ := hcacheOnly.written.exists_file hfile
    apply exists_file_of_entryAt_bare
    rw [hrewritten.bare_eq, entryAt_bare, hnew]
    rfl

/-- A run that is prepared fails to build the catalog, or comes to be ready and rewrites. -/
theorem mangle_of_prepared (hprepared : Prepared settings locale before.tree rules loaded) :
    (locale = settings.referenceLocale ∧ ∃ fault built events,
      outcome (build settings rules (localeDirectory settings locale))
        { before with catalog := loaded } = (.error fault, built) ∧
      outcome (mangle settings locale) before = (.error fault, { built with events })) ∨
    ∃ stats between, Ready settings locale rules loaded before stats between ∧
      outcome (mangle settings locale) before =
        outcome (rewriteReady settings locale stats) between := by
  by_cases hlocale : locale = settings.referenceLocale
  · have hbuilds := buildsFirst_of_eq hlocale before rules loaded hprepared
    cases hbuild : outcome (build settings rules (localeDirectory settings locale))
        { before with catalog := loaded } with
    | mk result built =>
      rw [hbuild] at hbuilds
      cases result with
      | ok stats => exact .inr ⟨stats, built, .built hlocale hbuild, hbuilds⟩
      | error fault =>
        obtain ⟨events, hmangle⟩ := hbuilds
        exact .inl ⟨hlocale, fault, built, events, rfl, hmangle⟩
  · have hmangle := usesCache_of_ne hlocale before rules loaded hprepared
    refine .inr ⟨{}, _, ?_, hmangle⟩
    exact .used hlocale rfl rfl

/-- A run that is not prepared leaves everything as it is. -/
theorem mangle_of_unprepared
    (hunprepared : ∀ rules loaded, ¬Prepared settings locale before.tree rules loaded) :
    (outcome (mangle settings locale) before).2 = before := by
  have hends := runEnds settings locale before
  cases hmangle : outcome (mangle settings locale) before with
  | mk result left =>
    rw [hmangle] at hends
    cases hends with
    | unprepared _ => rfl
    | buildFails hprepared => exact absurd hprepared (hunprepared _ _)
    | rewriteFails hprepared => exact absurd hprepared (hunprepared _ _)
    | done hprepared => exact absurd hprepared (hunprepared _ _)

/-- Whatever a run comes to, it changes nothing but source files of its locale and the cache. -/
theorem confined_mangle (hlocale : isValidLocale locale = true) (hlocated : settings.IsLocated)
    (hindex : IsEntryName settings.indexFile) (hplain : before.tree.IsPlain) :
    Confined settings locale before.tree (outcome (mangle settings locale) before).2.tree := by
  by_cases hexists : ∃ rules loaded, Prepared settings locale before.tree rules loaded
  · obtain ⟨rules, loaded, hprepared⟩ := hexists
    rcases mangle_of_prepared hprepared with
      ⟨hreference, fault, built, events, hbuild, hmangle⟩ | ⟨stats, between, hready, hmangle⟩
    · have hends := buildEnds settings rules (localeDirectory settings locale)
        { before with catalog := loaded }
      rw [hbuild] at hends
      rw [hmangle]
      exact (hends.cacheOnly hlocated hplain hreference hprepared.load).confined hplain
    · obtain ⟨name, -, hroot⟩ := hprepared.exists_isRoot hlocated hplain hlocale
      rw [hmangle]
      exact (hready.cacheOnly hlocated hplain hprepared.load).confined_of_rewritten hlocated hindex
        hroot (rewritten_rewriteReady settings locale stats between)
  · rw [mangle_of_unprepared fun rules loaded hprepared => hexists ⟨rules, loaded, hprepared⟩]
    exact CacheOnly.same.confined hplain

end SelectorMangling.Site
