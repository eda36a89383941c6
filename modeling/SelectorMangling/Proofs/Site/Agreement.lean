import SelectorMangling.Proofs.Site.AllOrNothing

/-!
# Locales agree

The run for the reference locale leaves its catalog in the cache, and a run for another locale reads
back the same one.  Over any sequence of such runs all source files are rewritten by that one catalog,
and the cache stays as it is.
-/

namespace SelectorMangling.Site

open FileTree

variable {settings : Settings} {catalog : Catalog} {tree last : FileTree} {location : Location}

/-! ## The cache between runs -/

/-- A tree without links in which a catalog is cached. -/
structure Cached (settings : Settings) (catalog : Catalog) (tree : FileTree) : Prop where
  plain : tree.IsPlain
  cache : tree.entryAt settings.cachePath.location = some (.file catalog.render.toUTF8)

namespace Cached

theorem find_cachePath (hcached : Cached settings catalog tree) (hlocated : settings.IsLocated) :
    tree.find settings.cachePath =
      .ok (settings.cachePath.location, .file catalog.render.toUTF8) := by
  have hbelow : settings.cachePath.location ≠ [] := by
    intro htop
    have hcache := hcached.cache
    simp [htop] at hcache
  exact (hcached.plain.find_eq_ok_iff hlocated.denotes_cachePath).mpr
    ⟨rfl, hcached.cache, .inl (hlocated.cachePath_ends hbelow)⟩

/-- A run reads back the catalog that was cached. -/
theorem load_eq_ok (hcached : Cached settings catalog tree) (hlocated : settings.IsLocated)
    (hfree : Catalog.countKey ∉ catalog.names) :
    Catalog.load tree settings.cachePath = .ok catalog := by
  have hfind := hcached.find_cachePath hlocated
  exact Catalog.load_eq_ok_of_readText hfree (readText_of_find hfind (fromUTF8?_toUTF8 _))

end Cached

/-- A build that ends without a fault leaves its catalog in the cache and the output as it was. -/
theorem cached_of_build {rules : Rules} {root : Path} {before : Workspace} {stats : ScanStats}
    {built : Workspace} (hlocated : settings.IsLocated) (hplain : before.tree.IsPlain)
    (hload : Catalog.load before.tree settings.cachePath = .ok before.catalog)
    (hbuild : outcome (build settings rules root) before = (.ok stats, built)) :
    Written (· <+: settings.cachePath.location) before.tree built.tree ∧
      Cached settings built.catalog built.tree ∧ Catalog.countKey ∉ built.catalog.names := by
  obtain ⟨scanned, hgrows, hcatalog, hsave⟩ := build_eq_ok hbuild
  obtain ⟨hwritten, hcache⟩ :=
    Catalog.written_of_save hplain hlocated.denotes_cachePath hsave
  refine ⟨hwritten, ⟨hwritten.isPlain hplain, hcache⟩, ?_⟩
  rw [hcatalog, Catalog.names_deriveElevation]
  exact hgrows.countKey_notMem (Catalog.countKey_notMem_names_of_load hload)

/-! ## One run -/

namespace Run

variable {run : Run}

/-- The directory of the locale of a run. -/
def root (settings : Settings) (run : Run) : Path := localeDirectory settings run.locale

def base (settings : Settings) (run : Run) : Location := (run.root settings).location

/-- A location is that of a source file of the run, at its beginning or at its end. -/
def HasSource (settings : Settings) (run : Run) (location : Location) : Prop :=
  IsSource run.before settings (run.root settings) location ∨
    IsSource run.after settings (run.root settings) location

/-- A run has rewritten all source files of its locale by a catalog, and nothing else in the
output. -/
structure RewritesBy (settings : Settings) (catalog : Catalog) (run : Run) : Prop where
  direct : ∃ name, run.base settings = settings.distDir.location ++ [name]
  inside : ∀ location, run.HasSource settings location → run.base settings <+: location
  rewritten : ∀ location, run.HasSource settings location →
    RewrittenAt catalog.rewriter run.before run.after location
  spared : ∀ location, settings.distDir.location <+: location →
    ¬run.HasSource settings location → run.after.entryAt location = run.before.entryAt location

namespace RewritesBy

theorem distDir_prefix (hrewrites : run.RewritesBy settings catalog)
    (hsource : run.HasSource settings location) : settings.distDir.location <+: location := by
  obtain ⟨name, hbase⟩ := hrewrites.direct
  have hinside := hrewrites.inside location hsource
  rw [hbase] at hinside
  exact (List.prefix_append _ _).trans hinside

/-- A run leaves the other locales as they are. -/
theorem entryAt_eq (hrewrites : run.RewritesBy settings catalog)
    (hbelow : settings.distDir.location <+: location)
    (houtside : ¬run.base settings <+: location) :
    run.after.entryAt location = run.before.entryAt location :=
  hrewrites.spared location hbelow (mt (hrewrites.inside location) houtside)

/-- Locales in different directories share nothing. -/
theorem not_prefix_of_ne {other : Run} {others : Catalog}
    (hrewrites : run.RewritesBy settings catalog) (hother : other.RewritesBy settings others)
    (hne : run.base settings ≠ other.base settings) (hinside : run.base settings <+: location) :
    ¬other.base settings <+: location := by
  obtain ⟨name, hbase⟩ := hrewrites.direct
  obtain ⟨otherName, hotherBase⟩ := hother.direct
  intro hprefix
  have hlength : (run.base settings).length = (other.base settings).length := by
    rw [hbase, hotherBase, List.length_append, List.length_append]
    rfl
  exact hne ((List.prefix_of_prefix_length_le hinside hprefix hlength.le).eq_of_length hlength)

end RewritesBy

/-- What the rewriting at the end of a run does. -/
theorem rewritesBy_of_rewrite {name : String} {between left : Workspace} {count : Nat}
    (hrewrite : outcome (rewrite settings (run.root settings)) between = (.ok count, left))
    (hafter : left.tree = run.after) (hlocated : settings.IsLocated)
    (hroot : IsRoot between.tree (run.root settings) (settings.distDir.location ++ [name]))
    (hcached : Cached settings between.catalog between.tree)
    (hbefore : ∀ location, settings.distDir.location <+: location →
      between.tree.entryAt location = run.before.entryAt location)
    (hsources : ∀ location, IsSource run.before settings (run.root settings) location →
      IsSource between.tree settings (run.root settings) location) :
    run.RewritesBy settings between.catalog ∧ Cached settings between.catalog run.after := by
  obtain ⟨hsteps, -, -⟩ := rewrite_eq_ok hrewrite
  obtain ⟨hwritten, htexts⟩ := rewritten_of_isRoot hroot hrewrite
  rw [hafter] at hsteps hwritten htexts
  have hsource : ∀ {location}, run.HasSource settings location →
      IsSource between.tree settings (run.root settings) location := by
    rintro location (hfirst | hlast)
    · exact hsources location hfirst
    · exact isSource_of_bare_eq hsteps.bare_eq hlast
  have hbelow : ∀ {location}, IsSource between.tree settings (run.root settings) location →
      settings.distDir.location <+: location :=
    fun hsource => (List.prefix_append _ _).trans (hroot.base_prefix hsource)
  have hbase : run.base settings = settings.distDir.location ++ [name] := hroot.denotes.location_eq
  refine ⟨⟨⟨name, hbase⟩, ?_, ?_, ?_⟩, hwritten.isPlain hcached.plain, ?_⟩
  · intro location hhas
    rw [hbase]
    exact hroot.base_prefix (hsource hhas)
  · intro location hhas
    exact (htexts location (hsource hhas)).congr (hbefore location (hbelow (hsource hhas)))
  · intro location hdist hspared
    rw [hwritten.entryAt_eq, hbefore location hdist]
    exact fun hhas => hspared (.inr (isSource_of_bare_eq hsteps.bare_eq.symm hhas))
  · -- No source file is the cache, because the cache lies outside of the output.
    rw [hwritten.entryAt_eq, hcached.cache]
    exact fun hhas => hlocated.cache_outside (hbelow hhas)

/-- The run for the reference locale rewrites by the catalog that it built and leaves it in the
cache. -/
theorem rewritesBy_of_reference (hlocated : settings.IsLocated) (hplain : run.before.IsPlain)
    (hreference : run.locale = settings.referenceLocale) (hsucceeds : run.Succeeds settings) :
    ∃ rules loaded stats built, Prepared settings run.locale run.before rules loaded ∧
      outcome (build settings rules (run.root settings)) { tree := run.before, catalog := loaded } =
        (.ok stats, built) ∧
      Catalog.countKey ∉ built.catalog.names ∧ run.RewritesBy settings built.catalog ∧
      Cached settings built.catalog run.after := by
  obtain ⟨summary, left, hmangle, hafter⟩ := hsucceeds
  have hends := runEnds settings run.locale { tree := run.before }
  rw [hmangle] at hends
  cases hends with
  | @done rules loaded stats count built _ _ hprepared hready hrewrite _ _ _ =>
    cases hready with
    | used hother _ _ => exact absurd hreference hother
    | built _ hbuild =>
      have hlocale : isValidLocale run.locale = true := by
        rw [hreference]
        exact hlocated.isValidLocale_reference
      obtain ⟨name, -, hroot⟩ := hprepared.exists_isRoot hlocated hplain hlocale
      obtain ⟨hwritten, hcached, hfree⟩ :=
        cached_of_build hlocated hplain hprepared.load hbuild
      refine ⟨rules, loaded, stats, built, hprepared, hbuild, hfree, ?_⟩
      exact rewritesBy_of_rewrite hrewrite hafter hlocated (hroot.written hwritten) hcached
        (fun _ => entryAt_of_written hlocated hwritten)
        (fun _ => hroot.isSource_of_written hwritten)

/-- A run for another locale rewrites by the catalog that it finds in the cache and leaves the
cache. -/
theorem rewritesBy_of_other (hlocated : settings.IsLocated)
    (hfree : Catalog.countKey ∉ catalog.names) (hcached : Cached settings catalog run.before)
    (hlocale : isValidLocale run.locale = true) (hother : run.locale ≠ settings.referenceLocale)
    (hsucceeds : run.Succeeds settings) :
    run.RewritesBy settings catalog ∧ Cached settings catalog run.after := by
  obtain ⟨summary, left, hmangle, hafter⟩ := hsucceeds
  have hends := runEnds settings run.locale { tree := run.before }
  rw [hmangle] at hends
  cases hends with
  | @done rules loaded stats count between _ _ hprepared hready hrewrite _ _ _ =>
    cases hready with
    | built hreference _ => exact absurd hreference hother
    | used _ htree hcatalog =>
      obtain ⟨name, -, hroot⟩ := hprepared.exists_isRoot hlocated hcached.plain hlocale
      obtain rfl : loaded = catalog :=
        Except.ok.inj (hprepared.load.symm.trans (hcached.load_eq_ok hlocated hfree))
      dsimp only at htree hroot
      rw [← htree] at hroot hcached
      rw [← hcatalog] at hcached ⊢
      exact rewritesBy_of_rewrite hrewrite hafter hlocated hroot hcached
        (fun location _ => by rw [htree]) (fun location hsource => by rwa [htree])

end Run

/-! ## Runs one after another -/

/-- Successful runs that follow one another from one tree to another. -/
inductive Successive (settings : Settings) : FileTree → List Run → FileTree → Prop
  | nil (tree : FileTree) : Successive settings tree [] tree
  | cons {run : Run} {rest : List Run} {last : FileTree} (hsucceeds : run.Succeeds settings)
      (hrest : Successive settings run.after rest last) :
      Successive settings run.before (run :: rest) last

/-- Runs from one tree to another agree on a catalog.  Each of them has rewritten its source files by
that catalog and has left it in the cache.  If they are for different directories, every source file
holds in the end what the catalog makes of what it held at first. -/
structure AgreeOn (settings : Settings) (catalog : Catalog) (tree : FileTree) (runs : List Run)
    (last : FileTree) : Prop where
  rewritesBy : ∀ run ∈ runs, run.RewritesBy settings catalog
  cache : ∀ run ∈ runs, run.after.find settings.cachePath =
    .ok (settings.cachePath.location, .file catalog.render.toUTF8)
  spared : ∀ location, settings.distDir.location <+: location →
    (∀ run ∈ runs, ¬run.base settings <+: location) →
      last.entryAt location = tree.entryAt location
  rewritten : (runs.Pairwise fun run other => run.base settings ≠ other.base settings) →
    ∀ run ∈ runs, ∀ location, run.HasSource settings location →
      RewrittenAt catalog.rewriter tree last location

namespace AgreeOn

variable {run : Run} {runs : List Run}

theorem nil (settings : Settings) (catalog : Catalog) (tree : FileTree) :
    AgreeOn settings catalog tree [] tree where
  rewritesBy := by simp
  cache := by simp
  spared := fun _ _ _ => rfl
  rewritten := by simp

/-- A run in front of others that agree with it. -/
theorem cons (hlocated : settings.IsLocated) (hrun : run.RewritesBy settings catalog)
    (hcached : Cached settings catalog run.after)
    (hrest : AgreeOn settings catalog run.after runs last) :
    AgreeOn settings catalog run.before (run :: runs) last where
  rewritesBy := List.forall_mem_cons.mpr ⟨hrun, hrest.rewritesBy⟩
  cache := List.forall_mem_cons.mpr ⟨hcached.find_cachePath hlocated, hrest.cache⟩
  spared := by
    intro location hbelow houtside
    obtain ⟨hfirst, hothers⟩ := List.forall_mem_cons.mp houtside
    rw [hrest.spared location hbelow hothers, hrun.entryAt_eq hbelow hfirst]
  rewritten := by
    intro hdifferent
    obtain ⟨hfirst, hothers⟩ := List.pairwise_cons.mp hdifferent
    refine List.forall_mem_cons.mpr ⟨?_, ?_⟩
    · intro location hsource
      obtain ⟨text, new, hbefore, hnew, hafter⟩ := hrun.rewritten location hsource
      refine ⟨text, new, hbefore, hnew, ?_⟩
      rw [hrest.spared location (hrun.distDir_prefix hsource), hafter]
      exact fun other hother => hrun.not_prefix_of_ne (hrest.rewritesBy other hother)
        (hfirst other hother) (hrun.inside location hsource)
    · intro other hother location hsource
      have hrewrites := hrest.rewritesBy other hother
      apply (hrest.rewritten hothers other hother location hsource).congr
      apply hrun.entryAt_eq (hrewrites.distDir_prefix hsource)
      exact hrewrites.not_prefix_of_ne hrun (hfirst other hother).symm
        (hrewrites.inside location hsource)

end AgreeOn

/-- Runs for other locales agree on the catalog that is cached. -/
theorem agreeOn_of_cached {runs : List Run} (hlocated : settings.IsLocated)
    (hfree : Catalog.countKey ∉ catalog.names) (hruns : Successive settings tree runs last)
    (hcached : Cached settings catalog tree)
    (hothers : ∀ run ∈ runs, isValidLocale run.locale = true ∧
      run.locale ≠ settings.referenceLocale) : AgreeOn settings catalog tree runs last := by
  induction hruns with
  | nil tree => exact .nil settings catalog tree
  | cons hsucceeds _ ih =>
    obtain ⟨⟨hlocale, hother⟩, hrest⟩ := List.forall_mem_cons.mp hothers
    obtain ⟨hrun, hafter⟩ :=
      Run.rewritesBy_of_other hlocated hfree hcached hlocale hother hsucceeds
    exact .cons hlocated hrun hafter (ih hafter hrest)

/-- Two locales, each with one stylesheet. -/
def twoLocales : FileTree where
  entries :=
    [(["d"], .directory), (["d", "e"], .directory), (["d", "e", "i"], .file .empty),
     (["d", "e", "a.css"], .file ".m-el2".toUTF8), (["d", "f"], .directory),
     (["d", "f", "i"], .file .empty), (["d", "f", "a.css"], .file ".b .m-el2".toUTF8)]
  locations_nodup := by
    change [["d"], ["d", "e"], ["d", "e", "i"], ["d", "e", "a.css"], ["d", "f"], ["d", "f", "i"],
      ["d", "f", "a.css"]].Nodup
    decide

theorem hasStyle_twoLocales : HasStyle twoLocales ".m-el2" where
  root := findLink_of_resolve (resolve_of_resolveWithin 4 rfl)
  children := ⟨_, rfl, rfl⟩
  index := isFile_of_find (find_of_resolveWithin 5 rfl)
  find := find_of_resolveWithin 5 rfl

theorem vacant_twoLocales : twoLocales.resolve true ⟨"/c"⟩ = .ok (.vacant ["c"]) :=
  resolve_of_resolveWithin 3 rfl

theorem isRoot_twoLocales {locale : String} (hlocale : locale = "e" ∨ locale = "f") :
    IsRoot twoLocales (localeDirectory shortSettings locale) ["d", locale] := by
  rcases hlocale with rfl | rfl
  · exact ⟨by decide, by decide, rfl⟩
  · exact ⟨by decide, by decide, rfl⟩

theorem exists_text_twoLocales {content : ByteArray}
    (hfile : twoLocales.entryAt location = some (.file content)) :
    ∃ text : String, content = text.toUTF8 := by
  have hbelow : location ≠ [] := by
    rintro rfl
    simp at hfile
  have hmem := (mem_entries_iff hbelow).mpr hfile
  simp only [twoLocales, List.mem_cons, Prod.mk.injEq, Entry.file.injEq, reduceCtorEq, and_false,
    List.not_mem_nil, false_or, or_false] at hmem
  rcases hmem with ⟨-, rfl⟩ | ⟨-, rfl⟩ | ⟨-, rfl⟩ | ⟨-, rfl⟩
  · exact ⟨"", rfl⟩
  · exact ⟨_, rfl⟩
  · exact ⟨"", rfl⟩
  · exact ⟨_, rfl⟩

/-- A locale that is still as it was at first can be run through. -/
theorem accessible_of_twoLocales {locale : String} (hlocale : locale = "e" ∨ locale = "f")
    (hplain : tree.IsPlain)
    (hsame : ∀ location, ["d", locale] <+: location →
      tree.entryAt location = twoLocales.entryAt location) :
    IsRoot tree (localeDirectory shortSettings locale) ["d", locale] ∧
      Accessible tree shortSettings (localeDirectory shortSettings locale) := by
  have hfirst := isRoot_twoLocales hlocale
  have hroot : IsRoot tree (localeDirectory shortSettings locale) ["d", locale] :=
    ⟨hplain, hfirst.denotes, (hsame _ (List.prefix_refl _)).trans hfirst.directory⟩
  refine ⟨hroot, hroot.accessible ?_⟩
  intro location hsource
  obtain ⟨-, -, content, -, -, -, hfile, -⟩ := hroot.isSource_iff.mp hsource
  have hheld := hfile
  rw [hsame location (hroot.base_prefix hsource)] at hheld
  obtain ⟨text, rfl⟩ := exists_text_twoLocales hheld
  exact ⟨text, hfile⟩

/-- The stylesheet of a locale is a source file. -/
theorem isSource_of_twoLocales {locale : String} (hlocale : locale = "e" ∨ locale = "f")
    (hroot : IsRoot tree (localeDirectory shortSettings locale) ["d", locale])
    (hsame : ∀ location, ["d", locale] <+: location →
      tree.entryAt location = twoLocales.entryAt location) :
    IsSource tree shortSettings (localeDirectory shortSettings locale) ["d", locale, "a.css"] := by
  apply (isRoot_twoLocales hlocale).isSource_of_entryAt_eq hroot (by decide) hsame
  have hfirst := isRoot_twoLocales hlocale
  rcases hlocale with rfl | rfl
  · exact hfirst.isSource_iff.mpr ⟨[], "a.css", _, rfl, rfl,
      (hfirst.hasIndex_iff (by decide)).mpr ⟨_, rfl⟩, rfl, by decide⟩
  · exact hfirst.isSource_iff.mpr ⟨[], "a.css", _, rfl, rfl,
      (hfirst.hasIndex_iff (by decide)).mpr ⟨_, rfl⟩, rfl, by decide⟩

/-- The reference locale gives a catalog of one name. -/
theorem exists_build_twoLocales :
    ∃ stats built, outcome (build shortSettings shortRules ⟨"/d/e"⟩)
        { tree := twoLocales, catalog := .empty } = (.ok stats, built) ∧
      built.tree = twoLocales.set ["c"] (.file memberAlone.render.toUTF8) ∧
      built.catalog = memberAlone := by
  obtain ⟨⟨stats, hstats⟩, hgrown⟩ :=
    scanOn_of_hasStyle hasStyle_twoLocales grow_member
  have hderived : (scanOn twoLocales .empty).2.catalog.deriveElevation "m-el" = memberAlone := by
    rw [hgrown]
    exact Catalog.deriveElevation_of_notMem (by decide)
  exact ⟨_, exists_build_of_scanOn hstats hderived (save_short _ (.inl vacant_twoLocales))
    (by decide)⟩

/-- The run for the reference locale. -/
theorem runOn_twoLocales : (runOn twoLocales).Succeeds shortSettings ∧
    ∀ rules loaded stats built, Prepared shortSettings "e" twoLocales rules loaded →
      outcome (build shortSettings rules (localeDirectory shortSettings "e"))
        { tree := twoLocales, catalog := loaded } = (.ok stats, built) →
      built.catalog = memberAlone := by
  have hreference : "e" = shortSettings.referenceLocale := rfl
  have hrules : Rules.ofSettings shortSettings = .ok shortRules := rfl
  have hload : Catalog.load twoLocales ⟨"/c"⟩ = .ok .empty :=
    Catalog.load_of_not_exists (not_exists_of_vacant vacant_twoLocales)
  have hroot := isRoot_twoLocales (.inl rfl)
  obtain ⟨stats, built, hbuild, htree, hcatalog⟩ := exists_build_twoLocales
  have hplain : built.tree.IsPlain := by
    rw [htree]
    decide
  have hsame : ∀ location, ["d", "e"] <+: location →
      built.tree.entryAt location = twoLocales.entryAt location := by
    intro location hbelow
    rw [htree]
    apply entryAt_set_of_ne
    rintro rfl
    exact absurd hbelow (by decide)
  have hnames : "" ∉ built.catalog.names := by
    rw [hcatalog]
    decide
  obtain ⟨-, haccessible⟩ := accessible_of_twoLocales (.inl rfl) hplain hsame
  obtain ⟨summary, left, hmangle, -⟩ := exists_mangle_eq_ok { tree := twoLocales } hreference
    ((hroot.plain.isDirectory_iff hroot.denotes).mpr hroot.directory) hrules hload hbuild
    hnames haccessible
  refine ⟨⟨summary, left, hmangle, by rw [runOn, hmangle]⟩, ?_⟩
  intro rules loaded stats other hprepared hother
  obtain rfl := Except.ok.inj (hprepared.rules.symm.trans hrules)
  obtain rfl := Except.ok.inj (hprepared.load.symm.trans hload)
  obtain ⟨-, rfl⟩ := Prod.mk.inj (hother.symm.trans hbuild)
  exact hcatalog

/-- A run for the other locale succeeds after the run for the reference locale. -/
theorem exists_run_twoLocales :
    ∃ other : Run, other.locale = "f" ∧ other.before = (runOn twoLocales).after ∧
      other.Succeeds shortSettings ∧ other.HasSource shortSettings ["d", "f", "a.css"] := by
  have hlocated := Settings.isLocated_of_ofOptions ofOptions_shortSettings
  have hplain : (runOn twoLocales).before.IsPlain :=
    show twoLocales.IsPlain by decide
  obtain ⟨rules, loaded, stats, built, hprepared, hbuild, hfree, hrewrites, hcached⟩ :=
    Run.rewritesBy_of_reference hlocated hplain rfl runOn_twoLocales.1
  have hnames : "" ∉ built.catalog.names := by
    rw [runOn_twoLocales.2 rules loaded stats built hprepared hbuild]
    decide
  have hbase : (runOn twoLocales).base shortSettings = ["d", "e"] := by decide
  have hsame : ∀ location, ["d", "f"] <+: location →
      (runOn twoLocales).after.entryAt location = twoLocales.entryAt location := by
    intro location hbelow
    have hdist : shortSettings.distDir.location <+: location :=
      (show shortSettings.distDir.location <+: ["d", "f"] by decide).trans hbelow
    apply hrewrites.entryAt_eq hdist
    rw [hbase]
    intro hother
    have hprefix := List.prefix_of_prefix_length_le hbelow hother (by decide)
    exact absurd hprefix (by decide)
  obtain ⟨hroot, haccessible⟩ := accessible_of_twoLocales (.inr rfl) hcached.plain hsame
  obtain ⟨summary, left, hmangle⟩ := exists_mangle_other_eq_ok { tree := (runOn twoLocales).after }
    (show "f" ≠ shortSettings.referenceLocale by decide)
    ((hroot.plain.isDirectory_iff hroot.denotes).mpr hroot.directory) hprepared.rules
    (hcached.load_eq_ok hlocated hfree) hnames haccessible
  exact ⟨⟨"f", _, left.tree⟩, rfl, rfl, ⟨summary, left, hmangle, rfl⟩,
    .inl (isSource_of_twoLocales (.inr rfl) hroot hsame)⟩

end SelectorMangling.Site
