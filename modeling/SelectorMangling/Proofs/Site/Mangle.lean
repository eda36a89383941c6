import SelectorMangling.Proofs.Catalog.Stability
import SelectorMangling.Proofs.Site.Build
import SelectorMangling.Proofs.Site.Rewrite
import SelectorMangling.Site.Mangle

/-!
# What a successful run does

A run that ends without a fault has loaded the cache.  For the reference locale it has built and
saved the catalog; for any other one it has used the catalog as it was loaded.  Then it has rewritten
the source files.
-/

namespace SelectorMangling.Site

variable {settings : Settings} {rules : Rules} {root : Path} {workspace left : Workspace}

/-- A build that ends without a fault has saved what scanning and numbering made of the catalog. -/
theorem build_eq_ok {stats : ScanStats}
    (hbuild : outcome (build settings rules root) workspace = (.ok stats, left)) :
    ∃ scanned, Catalog.Grows rules.IsCandidate workspace.catalog scanned ∧
      left.catalog = scanned.deriveElevation settings.elevationPrefix ∧
      left.catalog.save workspace.tree settings.cachePath = (left.tree, .ok ()) := by
  rw [build] at hbuild
  obtain ⟨_, told, htold, hbuild⟩ := outcome_bind_eq_ok hbuild
  obtain ⟨found, scanned, hscanned, hbuild⟩ := outcome_bind_eq_ok hbuild
  obtain ⟨_, derived, hderived, hbuild⟩ := outcome_bind_eq_ok hbuild
  obtain ⟨_, saved, hsaved, hbuild⟩ := outcome_bind_eq_ok hbuild
  simp only [outcome_tell, Prod.mk.injEq] at htold
  obtain ⟨-, rfl⟩ := htold
  obtain ⟨htree, hgrows⟩ := grows_scan settings rules root
    { workspace with events := workspace.events.push (.building root) }
  rw [hscanned] at htree hgrows
  obtain ⟨events, helevate⟩ := outcome_elevate settings.elevationPrefix scanned
  rw [helevate, Prod.mk.injEq] at hderived
  obtain ⟨-, rfl⟩ := hderived
  rw [outcome_saveCatalog, Prod.mk.injEq] at hsaved
  obtain ⟨hresult, rfl⟩ := hsaved
  simp only [outcome_bind, outcome_get, outcome_tell] at hbuild
  refine ⟨scanned.catalog, hgrows, ?_⟩
  split at hbuild
  · obtain ⟨-, rfl⟩ := Prod.mk.inj hbuild
    refine ⟨rfl, Prod.ext (by rw [← htree]) ?_⟩
    rw [← htree]
    cases hsave : ((scanned.catalog.deriveElevation settings.elevationPrefix).save scanned.tree
      settings.cachePath).2 with
    | ok value => rfl
    | error fault => simp [hsave, Except.mapError] at hresult
  · simp at hbuild

/-- Building the reference locale gives a result exactly when the build does. -/
theorem buildReference_eq_ok {locale : String} {stats : ScanStats}
    (hbuild : outcome (buildReference settings rules locale) workspace = (.ok stats, left)) :
    outcome (build settings rules (localeDirectory settings locale)) workspace =
      (.ok stats, left) := by
  rw [buildReference, outcome_tryCatch] at hbuild
  cases houtcome : outcome (build settings rules (localeDirectory settings locale)) workspace with
  | mk result between =>
    rw [houtcome] at hbuild
    cases result with
    | ok found => exact hbuild
    | error fault => cases fault <;> simp [outcome_bind] at hbuild

/-- Rewriting, and then nothing that changes the workspace. -/
theorem rewritten_of_bind {α : Type} {next : Nat → Work α} {result : α}
    (hnext : ∀ count between, (outcome (next count) between).2 = between)
    (houtcome : outcome (rewrite settings root >>= next) workspace = (.ok result, left)) :
    Rewritten settings root workspace left := by
  obtain ⟨count, between, hrewrite, hlast⟩ := outcome_bind_eq_ok houtcome
  have hrewritten := rewritten_rewrite settings root workspace
  have hsame := hnext count between
  rw [hrewrite] at hrewritten
  rw [hlast] at hsame
  rw [show left = between from hsame]
  exact hrewritten

/-- A run that ends without a fault has loaded the cache, has built the catalog if the locale is the
reference locale, and has rewritten the locale. -/
theorem mangle_eq_ok {locale : String} {summary : Summary}
    (hmangle : outcome (mangle settings locale) workspace = (.ok summary, left)) :
    ∃ loaded between, Catalog.load workspace.tree settings.cachePath = .ok loaded ∧
      Rewritten settings (localeDirectory settings locale) between left ∧
      (locale = settings.referenceLocale →
        ∃ rules stats, outcome (build settings rules (localeDirectory settings locale))
          { workspace with catalog := loaded } = (.ok stats, between)) ∧
      (locale ≠ settings.referenceLocale →
        between.tree = workspace.tree ∧ between.catalog = loaded) := by
  simp only [mangle, outcome_bind, outcome_get] at hmangle
  split at hmangle
  · simp at hmangle
  · split at hmangle
    · simp at hmangle
    · next rules hrules =>
      obtain ⟨_, loading, hloading, hmangle⟩ := outcome_bind_eq_ok hmangle
      rw [outcome_loadCatalog] at hloading
      split at hloading
      · next loaded hloaded =>
        rw [Prod.mk.injEq] at hloading
        obtain ⟨-, rfl⟩ := hloading
        split at hmangle
        · next hreference =>
          obtain ⟨stats, built, hbuilt, hmangle⟩ := outcome_bind_eq_ok hmangle
          have hleft := rewritten_of_bind (fun _ _ => rfl) hmangle
          refine ⟨loaded, built, hloaded, hleft, ?_, ?_⟩
          · intro _
            exact ⟨rules, stats, buildReference_eq_ok hbuilt⟩
          · intro hne
            exact absurd (beq_iff_eq.mp hreference) hne
        · next hother =>
          obtain ⟨_, between, hget, hmangle⟩ := outcome_bind_eq_ok hmangle
          obtain ⟨_, told, htell, hmangle⟩ := outcome_bind_eq_ok hmangle
          rw [outcome_get, Prod.mk.injEq] at hget
          obtain ⟨-, rfl⟩ := hget
          rw [outcome_tell, Prod.mk.injEq] at htell
          obtain ⟨-, rfl⟩ := htell
          rw [pure_bind] at hmangle
          have hleft := rewritten_of_bind (fun _ _ => rfl) hmangle
          refine ⟨loaded, _, hloaded, hleft, ?_, ?_⟩
          · intro hsame
            exact absurd (beq_iff_eq.mpr hsame) hother
          · intro _
            exact ⟨rfl, rfl⟩
      · simp at hloading

/-- A build gives a result if the scan does, the catalog can be saved and it is consistent. -/
theorem exists_build_eq_ok (workspace : Workspace) {stats : ScanStats} {scanned : Workspace}
    {saved : FileTree} (hscan : outcome (scan settings rules root)
      { workspace with events := workspace.events.push (.building root) } = (.ok stats, scanned))
    (hsave : (scanned.catalog.deriveElevation settings.elevationPrefix).save scanned.tree
      settings.cachePath = (saved, .ok ()))
    (hvalid : (scanned.catalog.deriveElevation settings.elevationPrefix).validate = .ok ()) :
    ∃ left, outcome (build settings rules root) workspace = (.ok stats, left) ∧
      left.tree = saved ∧
      left.catalog = scanned.catalog.deriveElevation settings.elevationPrefix := by
  obtain ⟨events, helevate⟩ := outcome_elevate settings.elevationPrefix scanned
  simp only [build, outcome_bind, outcome_tell, hscan, helevate, outcome_saveCatalog, hsave,
    Except.mapError, outcome_get, hvalid]
  exact ⟨_, rfl, rfl, rfl⟩

/-- A run for the reference locale gives a result if the cache can be loaded, the build gives one and
makes no empty name, and the source files are accessible. -/
theorem exists_mangle_eq_ok (workspace : Workspace) {locale : String} {loaded : Catalog}
    {stats : ScanStats} {built : Workspace} (hlocale : locale = settings.referenceLocale)
    (hroot : workspace.tree.isDirectory (localeDirectory settings locale) = true)
    (hrules : Rules.ofSettings settings = .ok rules)
    (hload : Catalog.load workspace.tree settings.cachePath = .ok loaded)
    (hbuild : outcome (build settings rules (localeDirectory settings locale))
      { workspace with catalog := loaded } = (.ok stats, built))
    (hnames : "" ∉ built.catalog.names)
    (haccessible : Accessible built.tree settings (localeDirectory settings locale)) :
    ∃ summary left, outcome (mangle settings locale) workspace = (.ok summary, left) ∧
      Rewritten settings (localeDirectory settings locale) built left := by
  obtain ⟨count, left, hrewrite⟩ := exists_rewrite_eq_ok hnames haccessible
  have hrewritten := rewritten_rewrite settings (localeDirectory settings locale) built
  rw [hrewrite] at hrewritten
  have hreference : (locale == settings.referenceLocale) = true := beq_iff_eq.mpr hlocale
  simp only [mangle, outcome_bind, outcome_get, hroot, Bool.not_true, Bool.false_eq_true, if_false,
    hrules, outcome_loadCatalog, hload, hreference, if_true, buildReference, outcome_tryCatch,
    hbuild, hrewrite, outcome_pure]
  exact ⟨_, left, rfl, hrewritten⟩

/-- A run for another locale gives a result if the cache can be loaded and has no empty name, and the
source files are accessible. -/
theorem exists_mangle_other_eq_ok (workspace : Workspace) {locale : String} {loaded : Catalog}
    (hlocale : locale ≠ settings.referenceLocale)
    (hroot : workspace.tree.isDirectory (localeDirectory settings locale) = true)
    (hrules : Rules.ofSettings settings = .ok rules)
    (hload : Catalog.load workspace.tree settings.cachePath = .ok loaded)
    (hnames : "" ∉ loaded.names)
    (haccessible : Accessible workspace.tree settings (localeDirectory settings locale)) :
    ∃ summary left, outcome (mangle settings locale) workspace = (.ok summary, left) := by
  let ready : Workspace := { workspace with
    catalog := loaded
    events := workspace.events.push (.using settings.cachePath loaded.size) }
  have hready : Accessible ready.tree settings (localeDirectory settings locale) := haccessible
  have hreadyNames : "" ∉ ready.catalog.names := hnames
  obtain ⟨count, left, hrewrite⟩ := exists_rewrite_eq_ok hreadyNames hready
  have hother : (locale == settings.referenceLocale) = false := beq_eq_false_iff_ne.mpr hlocale
  simp only [mangle, outcome_bind, outcome_get, hroot, Bool.not_true, Bool.false_eq_true, if_false,
    hrules, outcome_loadCatalog, hload, hother, outcome_tell, outcome_pure]
  rw [hrewrite]
  exact ⟨_, left, rfl⟩

end SelectorMangling.Site
