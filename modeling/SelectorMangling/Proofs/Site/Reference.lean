import SelectorMangling.Proofs.Site.AllOrNothing

/-!
# Which run builds the catalog

A run builds the catalog if its locale is the reference locale.  Locales are told apart by their
texts, though texts that are spelled differently may name one directory.
-/

namespace SelectorMangling.Site

variable {settings : Settings} {locale : String}

/-! ## The directory of a locale -/

/-- Two locales have the same directory if and only if they are spellings of one name. -/
theorem components_localeDirectory_eq_iff (hlocated : settings.IsLocated) {other : String}
    (hlocale : isValidLocale locale = true) (hother : isValidLocale other = true) :
    (localeDirectory settings locale).components = (localeDirectory settings other).components ↔
      ∃ name, Spells name locale ∧ Spells name other := by
  obtain ⟨name, hname, hspells⟩ := isValidLocale_iff.mp hlocale
  obtain ⟨otherName, hotherName, hotherSpells⟩ := isValidLocale_iff.mp hother
  have hdenotes := hlocated.denotes_localeDirectory hname hspells
  have hotherDenotes := hlocated.denotes_localeDirectory hotherName hotherSpells
  constructor
  · intro hsame
    have hmoved : (localeDirectory settings other).Denotes (settings.distDir.location ++ [name]) :=
      hsame.symm.trans hdenotes
    have hlocations := hmoved.location_eq.symm.trans hotherDenotes.location_eq
    obtain rfl : name = otherName := by simpa using hlocations
    exact ⟨name, hspells, hotherSpells⟩
  · rintro ⟨shared, hshared, hotherShared⟩
    obtain rfl : shared = name := hshared.unique hspells
    obtain rfl : shared = otherName := hotherShared.unique hotherSpells
    exact hdenotes.trans hotherDenotes.symm

/-! ## What a prepared run does -/

/-- Every prepared run for the locale scans it and extends and saves the catalog before it rewrites
anything. -/
def BuildsFirst (settings : Settings) (locale : String) : Prop :=
  ∀ before rules loaded, Prepared settings locale before.tree rules loaded →
    match outcome (build settings rules (localeDirectory settings locale))
      { before with catalog := loaded } with
    | (.ok stats, built) =>
      outcome (mangle settings locale) before = outcome (rewriteReady settings locale stats) built
    | (.error fault, built) =>
      ∃ events, outcome (mangle settings locale) before = (.error fault, { built with events })

/-- Every prepared run for the locale rewrites it with the catalog as it was loaded. -/
def UsesCache (settings : Settings) (locale : String) : Prop :=
  ∀ before rules loaded, Prepared settings locale before.tree rules loaded →
    outcome (mangle settings locale) before =
      outcome (rewriteReady settings locale {}) { before with
        catalog := loaded
        events := before.events.push (.using settings.cachePath loaded.size) }

theorem buildsFirst_of_eq (hlocale : locale = settings.referenceLocale) :
    BuildsFirst settings locale := by
  intro before rules loaded hprepared
  obtain ⟨events, hbuild⟩ :=
    outcome_buildReference settings rules locale { before with catalog := loaded }
  rw [outcome_mangle_of_prepared hprepared, if_pos hlocale, outcome_bind, hbuild]
  cases outcome (build settings rules (localeDirectory settings locale))
      { before with catalog := loaded } with
  | mk result built =>
    cases result with
    | ok stats => rfl
    | error fault => exact ⟨events, rfl⟩

theorem usesCache_of_ne (hlocale : locale ≠ settings.referenceLocale) :
    UsesCache settings locale := by
  intro before rules loaded hprepared
  rw [outcome_mangle_of_prepared hprepared, if_neg hlocale]

theorem rewritten_rewriteReady (settings : Settings) (locale : String) (stats : ScanStats)
    (workspace : Workspace) :
    Rewritten settings (localeDirectory settings locale) workspace
      (outcome (rewriteReady settings locale stats) workspace).2 := by
  have hrewritten := rewritten_rewrite settings (localeDirectory settings locale) workspace
  rw [rewriteReady, outcome_bind]
  cases hrewrite : outcome (rewrite settings (localeDirectory settings locale)) workspace with
  | mk result left =>
    rw [hrewrite] at hrewritten
    cases result with
    | ok count => exact hrewritten
    | error fault => exact hrewritten

theorem catalog_rewriteReady (settings : Settings) (locale : String) (stats : ScanStats)
    (workspace : Workspace) :
    (outcome (rewriteReady settings locale stats) workspace).2.catalog = workspace.catalog :=
  (rewritten_rewriteReady settings locale stats workspace).catalog_eq

/-- A run that builds first has the catalog of the build in the end, also if it fails. -/
theorem BuildsFirst.catalog_eq (hbuilds : BuildsFirst settings locale) {before : Workspace}
    {rules : Rules} {loaded : Catalog}
    (hprepared : Prepared settings locale before.tree rules loaded) :
    (outcome (mangle settings locale) before).2.catalog =
      (outcome (build settings rules (localeDirectory settings locale))
        { before with catalog := loaded }).2.catalog := by
  have hmangle := hbuilds before rules loaded hprepared
  cases hbuild : outcome (build settings rules (localeDirectory settings locale))
      { before with catalog := loaded } with
  | mk result built =>
    rw [hbuild] at hmangle
    cases result with
    | ok stats =>
      dsimp only at hmangle
      rw [hmangle, catalog_rewriteReady]
    | error fault =>
      obtain ⟨events, hmangle⟩ := hmangle
      rw [hmangle]

/-- With accepted settings a valid locale has the directory of the reference locale exactly if both
spell one name.  Then a run builds the catalog first if the two are spelled alike, as they are if
neither has a separator behind the name, and it uses the cache if they are not. -/
theorem buildsFirst_of_same_directory {start : FileTree} {options : Options}
    (hsettings : Settings.ofOptions start options = .ok settings)
    (hlocale : isValidLocale locale = true)
    (hsame : (localeDirectory settings locale).components =
      (localeDirectory settings settings.referenceLocale).components) :
    (∃ name, Spells name locale ∧ Spells name settings.referenceLocale) ∧
      (locale = settings.referenceLocale → BuildsFirst settings locale) ∧
      (locale ≠ settings.referenceLocale → UsesCache settings locale) ∧
      ('/' ∉ locale.toList → '/' ∉ settings.referenceLocale.toList →
        BuildsFirst settings locale) := by
  have hlocated := Settings.isLocated_of_ofOptions hsettings
  obtain ⟨name, hspells, hreference⟩ := (components_localeDirectory_eq_iff hlocated hlocale
    hlocated.isValidLocale_reference).mp hsame
  refine ⟨⟨name, hspells, hreference⟩, buildsFirst_of_eq, usesCache_of_ne, ?_⟩
  intro hplain hreferencePlain
  exact buildsFirst_of_eq
    ((hspells.eq_of_notMem hplain).trans (hreference.eq_of_notMem hreferencePlain).symm)

theorem buildsFirst_of_same_directory_short :
    BuildsFirst shortSettings "e" ∧ UsesCache shortSettings "e/" := by
  obtain ⟨-, -, -, hplain⟩ :=
    buildsFirst_of_same_directory ofOptions_shortSettings (show isValidLocale "e" = true by decide)
      rfl
  obtain ⟨-, -, hother, -⟩ :=
    buildsFirst_of_same_directory ofOptions_shortSettings (show isValidLocale "e/" = true by decide)
      (by decide)
  exact ⟨hplain (by decide) (by decide), hother (by decide)⟩

/-- The locale can be scanned by way of a path with a separator at its end. -/
theorem provides_behind_separator (style : String) :
    Provides (shortTree style) shortSettings ⟨"/d/e/"⟩ [(.style, style)] := by
  have hjoin : (⟨"/d/e/"⟩ : Path).join ⟨shortSettings.indexFile⟩ = ⟨"/d/e/i"⟩ := by decide +kernel
  have hroot : ∀ style, (shortTree style).findLink ⟨"/d/e/"⟩ = .ok (["d", "e"], .directory) :=
    fun _ => FileTree.findLink_of_resolve (FileTree.resolve_of_resolveWithin 5 rfl)
  have hfolders : featureFolders (shortTree style) shortSettings ⟨"/d/e/"⟩ = .ok [⟨"/d/e/"⟩] := by
    apply featureFolders_of_childless (hroot style) rfl
    rw [hasIndex, hjoin]
    exact (hasStyle_shortTree style).index
  have hbare : (shortTree "").bare = (shortTree style).bare := rfl
  have hfiles : sourceFiles (shortTree style) ⟨"/d/e/"⟩ =
      .ok [⟨⟨"/d/e/a.css"⟩, "a.css", .style⟩] := by
    rw [← sourceFiles_bare, ← hbare, sourceFiles_bare]
    exact sourceFiles_of_perm (FileTree.find_of_findLink (by simp) (hroot "")) (by decide +kernel)
      (by decide)
  apply provides_of_single hfolders hfiles
  simp only [ReadAs, List.map_cons, List.map_nil,
    readSource_of_find (hasStyle_shortTree style).find]

/-- A separator behind the name of the reference locale names the same directory, but a run for it
does not build the catalog. -/
theorem exists_same_directory_not_buildsFirst :
    ∃ start options settings locale, Settings.ofOptions start options = .ok settings ∧
      isValidLocale locale = true ∧ (localeDirectory settings locale).components =
        (localeDirectory settings settings.referenceLocale).components ∧
      ¬BuildsFirst settings locale := by
  refine ⟨shortSettingsTree, { config := some ⟨"/f"⟩ }, shortSettings, "e/",
    ofOptions_shortSettings, by decide, by decide, ?_⟩
  intro hbuilds
  let before : Workspace := { tree := shortTree ".m-el2" }
  have hdirectory : (shortTree ".m-el2").isDirectory ⟨"/d/e/"⟩ = true :=
    FileTree.isDirectory_of_find (FileTree.find_of_resolveWithin 5 rfl)
  have hprepared : Prepared shortSettings "e/" before.tree shortRules .empty :=
    ⟨hdirectory, rfl,
      Catalog.load_of_not_exists (FileTree.not_exists_of_vacant (vacant_shortTree ".m-el2"))⟩
  have hbuilt : (outcome (build shortSettings shortRules (localeDirectory shortSettings "e/"))
      { before with catalog := .empty }).2.catalog.size = 1 := by
    have hroot : localeDirectory shortSettings "e/" = ⟨"/d/e/"⟩ := by decide +kernel
    rw [hroot, catalog_build_of_room (provides_behind_separator ".m-el2") grow_member.1,
      Catalog.size_deriveElevation, grow_member.2]
    rfl
  have hcached : UsesCache shortSettings "e/" := usesCache_of_ne (by decide)
  rw [← hbuilds.catalog_eq hprepared, hcached before _ _ hprepared, catalog_rewriteReady] at hbuilt
  contradiction

end SelectorMangling.Site
