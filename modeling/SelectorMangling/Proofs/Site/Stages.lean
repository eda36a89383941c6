import SelectorMangling.Proofs.Site.Additions
import SelectorMangling.Proofs.Site.Build
import SelectorMangling.Site.Mangle

/-!
# The stages of a run

A run first makes sure of what it needs, then builds the catalog if the locale is the reference
locale, and rewrites the locale at last.  It ends at the first stage that fails.
-/

namespace SelectorMangling.Site

variable {settings : Settings} {rules : Rules} {root : Path} {before left : Workspace}

/-! ## How a build ends -/

/-- A fault tells of an inconsistent catalog. -/
def Fault.IsInconsistent : Fault → Prop
  | .inconsistent _ => True
  | _ => False

/-- A scan that fails comes back, and never on account of an inconsistent catalog. -/
theorem isReturned_of_scan {fault : Fault}
    (hscan : outcome (scan settings rules root) before = (.error fault, left)) :
    fault.isReturned = true ∧ ¬fault.IsInconsistent := by
  have hends := goesThrough_scan settings rules root before.tree before rfl
  rw [hscan] at hends
  cases hends with
  | exhausted => exact ⟨rfl, not_false⟩
  | stopped hblocked =>
    cases hblocked with
    | walk => exact ⟨rfl, not_false⟩
    | list => exact ⟨rfl, not_false⟩
    | read => exact ⟨rfl, not_false⟩

/-- What a scan starts with in a build. -/
def scanStart (root : Path) (before : Workspace) : Workspace :=
  { before with events := before.events.push (.building root) }

/-- The ways in which a build ends. -/
inductive BuildEnds (settings : Settings) (rules : Rules) (root : Path) (before : Workspace) :
    Except Fault ScanStats → Workspace → Prop
  | scanFails {fault : Fault} {left : Workspace}
      (hscan : outcome (scan settings rules root) (scanStart root before) = (.error fault, left)) :
      BuildEnds settings rules root before (.error fault) left
  | saveFails {stats : ScanStats} {scanned left : Workspace} {fault : Catalog.StoreFault}
      (hscan : outcome (scan settings rules root) (scanStart root before) = (.ok stats, scanned))
      (hcatalog : left.catalog = scanned.catalog.deriveElevation settings.elevationPrefix)
      (hsave : left.catalog.save scanned.tree settings.cachePath = (left.tree, .error fault)) :
      BuildEnds settings rules root before (.error (.save fault)) left
  | inconsistent {stats : ScanStats} {scanned left : Workspace} {cause : Catalog.Duplicates}
      (hscan : outcome (scan settings rules root) (scanStart root before) = (.ok stats, scanned))
      (hcatalog : left.catalog = scanned.catalog.deriveElevation settings.elevationPrefix)
      (hsave : left.catalog.save scanned.tree settings.cachePath = (left.tree, .ok ()))
      (hinvalid : left.catalog.validate = .error cause) :
      BuildEnds settings rules root before (.error (.inconsistent cause)) left
  | done {stats : ScanStats} {scanned left : Workspace}
      (hscan : outcome (scan settings rules root) (scanStart root before) = (.ok stats, scanned))
      (hcatalog : left.catalog = scanned.catalog.deriveElevation settings.elevationPrefix)
      (hsave : left.catalog.save scanned.tree settings.cachePath = (left.tree, .ok ()))
      (hvalid : left.catalog.validate = .ok ()) :
      BuildEnds settings rules root before (.ok stats) left

namespace BuildEnds

variable {result : Except Fault ScanStats}

/-- A build gives codes to the family after its scan, whatever becomes of saving. -/
theorem catalog_eq (hends : BuildEnds settings rules root before result left) {stats : ScanStats}
    {scanned : Workspace}
    (hscan : outcome (scan settings rules root) (scanStart root before) = (.ok stats, scanned)) :
    left.catalog = scanned.catalog.deriveElevation settings.elevationPrefix := by
  cases hends with
  | scanFails hfails => simp [hscan] at hfails
  | saveFails hother hcatalog =>
    cases hscan.symm.trans hother
    exact hcatalog
  | inconsistent hother hcatalog =>
    cases hscan.symm.trans hother
    exact hcatalog
  | done hother hcatalog =>
    cases hscan.symm.trans hother
    exact hcatalog

/-- However a build ends, it leaves the names that its scan has left. -/
theorem names_eq (hends : BuildEnds settings rules root before result left) :
    left.catalog.names =
      (outcome (scan settings rules root) (scanStart root before)).2.catalog.names := by
  cases hends with
  | scanFails hscan => rw [hscan]
  | saveFails hscan hcatalog => rw [hscan, hcatalog, Catalog.names_deriveElevation]
  | inconsistent hscan hcatalog => rw [hscan, hcatalog, Catalog.names_deriveElevation]
  | done hscan hcatalog => rw [hscan, hcatalog, Catalog.names_deriveElevation]

end BuildEnds

theorem buildEnds (settings : Settings) (rules : Rules) (root : Path) (before : Workspace) :
    BuildEnds settings rules root before (outcome (build settings rules root) before).1
      (outcome (build settings rules root) before).2 := by
  simp only [build, outcome_bind, outcome_tell]
  cases hscan : outcome (scan settings rules root) (scanStart root before) with
  | mk result scanned =>
    unfold scanStart at hscan
    rw [hscan]
    cases result with
    | error fault => exact .scanFails hscan
    | ok stats =>
      obtain ⟨events, helevate⟩ := outcome_elevate settings.elevationPrefix scanned
      simp only [helevate, outcome_saveCatalog]
      cases hsave : (scanned.catalog.deriveElevation settings.elevationPrefix).save scanned.tree
          settings.cachePath with
      | mk saved result =>
        cases result with
        | error fault => exact .saveFails hscan rfl hsave
        | ok value =>
          simp only [Except.mapError, outcome_get]
          cases hvalid :
              (scanned.catalog.deriveElevation settings.elevationPrefix).validate with
          | error cause => exact .inconsistent hscan rfl hsave hvalid
          | ok value => exact .done hscan rfl hsave hvalid

/-- Where all source files can be read, the codes that a build leaves are told by their texts as long
as there are codes left. -/
theorem catalog_build_of_room {tree : FileTree} {loaded : Catalog}
    {contents : List (SourceKind × String)} (hprovides : Provides tree settings root contents)
    (hroom : (loaded.grow (rules.stream contents)).exhausted = none) :
    (outcome (build settings rules root) { tree, catalog := loaded }).2.catalog =
      (loaded.grow (rules.stream contents)).catalog.deriveElevation settings.elevationPrefix := by
  obtain ⟨stats, scanned, hscan, -, hcatalog⟩ := exists_scan_of_room hprovides hroom
    (scanStart root { tree, catalog := loaded }) rfl rfl
  rw [(buildEnds settings rules root _).catalog_eq hscan, hcatalog]

/-- A build that ends without a fault has scanned, numbered and saved. -/
theorem exists_scan_of_build {stats : ScanStats}
    (hbuild : outcome (build settings rules root) before = (.ok stats, left)) :
    ∃ scanned,
      outcome (scan settings rules root) (scanStart root before) = (.ok stats, scanned) ∧
      left.catalog = scanned.catalog.deriveElevation settings.elevationPrefix ∧
      left.catalog.save scanned.tree settings.cachePath = (left.tree, .ok ()) := by
  have hends := buildEnds settings rules root before
  rw [hbuild] at hends
  cases hends with
  | done hscan hcatalog hsave _ => exact ⟨_, hscan, hcatalog, hsave⟩

/-! ## How a run ends -/

/-- What a run makes sure of first. -/
structure Prepared (settings : Settings) (locale : String) (tree : FileTree) (rules : Rules)
    (loaded : Catalog) : Prop where
  directory : tree.isDirectory (localeDirectory settings locale) = true
  rules : Rules.ofSettings settings = .ok rules
  load : Catalog.load tree settings.cachePath = .ok loaded

/-- How a run comes to the catalog that it rewrites with: it builds it from the reference locale, or
uses it as it was loaded. -/
inductive Ready (settings : Settings) (locale : String) (rules : Rules) (loaded : Catalog)
    (before : Workspace) : ScanStats → Workspace → Prop
  | built {stats : ScanStats} {between : Workspace} (hlocale : locale = settings.referenceLocale)
      (hbuild : outcome (build settings rules (localeDirectory settings locale))
        { before with catalog := loaded } = (.ok stats, between)) :
      Ready settings locale rules loaded before stats between
  | used {between : Workspace} (hlocale : locale ≠ settings.referenceLocale)
      (htree : between.tree = before.tree) (hcatalog : between.catalog = loaded) :
      Ready settings locale rules loaded before {} between

/-- The ways in which a run ends. -/
inductive RunEnds (settings : Settings) (locale : String) (before : Workspace) :
    Except Fault Summary → Workspace → Prop
  | unprepared {fault : Fault} (hreturned : fault.isReturned = true)
      (hfault : ¬fault.IsInconsistent) :
      RunEnds settings locale before (.error fault) before
  | buildFails {rules : Rules} {loaded : Catalog} {fault : Fault} {built left : Workspace}
      (hprepared : Prepared settings locale before.tree rules loaded)
      (hbuild : outcome (build settings rules (localeDirectory settings locale))
        { before with catalog := loaded } = (.error fault, built))
      (htree : left.tree = built.tree) (hcatalog : left.catalog = built.catalog) :
      RunEnds settings locale before (.error fault) left
  | rewriteFails {rules : Rules} {loaded : Catalog} {stats : ScanStats} {fault : Fault}
      {between left : Workspace} (hprepared : Prepared settings locale before.tree rules loaded)
      (hready : Ready settings locale rules loaded before stats between)
      (hrewrite : outcome (rewrite settings (localeDirectory settings locale)) between =
        (.error fault, left)) :
      RunEnds settings locale before (.error fault) left
  | done {rules : Rules} {loaded : Catalog} {stats : ScanStats} {count : Nat}
      {between left : Workspace} {summary : Summary}
      (hprepared : Prepared settings locale before.tree rules loaded)
      (hready : Ready settings locale rules loaded before stats between)
      (hrewrite : outcome (rewrite settings (localeDirectory settings locale)) between =
        (.ok count, left))
      (hscanned : summary.scannedFiles = stats.scannedFiles)
      (hadded : summary.addedSelectors = stats.addedSelectors)
      (hcount : summary.rewrittenFiles = count) :
      RunEnds settings locale before (.ok summary) left

/-- What a run does once it is ready. -/
def rewriteReady (settings : Settings) (locale : String) (stats : ScanStats) : Work Summary := do
  let rewrittenFiles ← rewrite settings (localeDirectory settings locale)
  return {
    reference := locale == settings.referenceLocale
    scannedFiles := stats.scannedFiles
    addedSelectors := stats.addedSelectors
    catalogSize := (← get).catalog.size
    rewrittenFiles }

theorem runEnds_of_ready {locale : String} {loaded : Catalog} {stats : ScanStats}
    {between : Workspace} (hprepared : Prepared settings locale before.tree rules loaded)
    (hready : Ready settings locale rules loaded before stats between) :
    RunEnds settings locale before (outcome (rewriteReady settings locale stats) between).1
      (outcome (rewriteReady settings locale stats) between).2 := by
  simp only [rewriteReady, outcome_bind]
  cases hrewrite : outcome (rewrite settings (localeDirectory settings locale)) between with
  | mk result left =>
    cases result with
    | error fault => exact .rewriteFails hprepared hready hrewrite
    | ok count =>
      simp only [outcome_get, outcome_pure]
      exact .done hprepared hready hrewrite rfl rfl rfl

/-- Building the reference locale differs from a build only in what is told about a fault. -/
theorem outcome_buildReference (settings : Settings) (rules : Rules) (locale : String)
    (workspace : Workspace) :
    ∃ events, outcome (buildReference settings rules locale) workspace =
      match outcome (build settings rules (localeDirectory settings locale)) workspace with
      | (.ok stats, left) => (.ok stats, left)
      | (.error fault, left) => (.error fault, { left with events }) := by
  rw [buildReference, outcome_tryCatch]
  cases outcome (build settings rules (localeDirectory settings locale)) workspace with
  | mk result left =>
    cases result with
    | ok stats => exact ⟨#[], rfl⟩
    | error fault => cases fault <;> exact ⟨_, rfl⟩

/-- What a prepared run does depends on whether its locale is the reference locale. -/
theorem outcome_mangle_of_prepared {locale : String} {loaded : Catalog}
    (hprepared : Prepared settings locale before.tree rules loaded) :
    outcome (mangle settings locale) before =
      if locale = settings.referenceLocale then
        outcome (do
          let stats ← buildReference settings rules locale
          rewriteReady settings locale stats) { before with catalog := loaded }
      else
        outcome (rewriteReady settings locale {}) { before with
          catalog := loaded
          events := before.events.push (.using settings.cachePath loaded.size) } := by
  simp only [mangle, outcome_bind, outcome_get, hprepared.directory, Bool.not_true,
    Bool.false_eq_true, if_false, hprepared.rules, outcome_loadCatalog, hprepared.load]
  by_cases hlocale : locale = settings.referenceLocale
  · rw [if_pos hlocale, if_pos (beq_iff_eq.mpr hlocale), outcome_bind]
    rfl
  · rw [if_neg hlocale, if_neg (mt beq_iff_eq.mp hlocale), outcome_bind, outcome_get]
    dsimp only
    rw [outcome_bind, outcome_tell]
    rfl

theorem runEnds (settings : Settings) (locale : String) (before : Workspace) :
    RunEnds settings locale before (outcome (mangle settings locale) before).1
      (outcome (mangle settings locale) before).2 := by
  simp only [mangle, outcome_bind, outcome_get]
  cases hdirectory : before.tree.isDirectory (localeDirectory settings locale) with
  | false => exact .unprepared rfl not_false
  | true =>
    rw [Bool.not_true, if_neg Bool.false_ne_true]
    cases hrules : Rules.ofSettings settings with
    | error fault => exact .unprepared rfl not_false
    | ok rules =>
      simp only [outcome_bind, outcome_loadCatalog]
      cases hload : Catalog.load before.tree settings.cachePath with
      | error fault => exact .unprepared rfl not_false
      | ok loaded =>
        have hprepared : Prepared settings locale before.tree rules loaded :=
          ⟨hdirectory, hrules, hload⟩
        dsimp only
        by_cases hlocale : locale = settings.referenceLocale
        · rw [if_pos (beq_iff_eq.mpr hlocale), outcome_bind]
          obtain ⟨events, hreference⟩ := outcome_buildReference settings rules locale
            { before with catalog := loaded }
          rw [hreference]
          cases hbuild : outcome (build settings rules (localeDirectory settings locale))
              { before with catalog := loaded } with
          | mk result built =>
            cases result with
            | error fault => exact .buildFails hprepared hbuild rfl rfl
            | ok stats => exact runEnds_of_ready hprepared (.built hlocale hbuild)
        · rw [if_neg (mt beq_iff_eq.mp hlocale), outcome_bind, outcome_get]
          dsimp only
          rw [outcome_bind, outcome_tell]
          exact runEnds_of_ready hprepared (.used hlocale rfl rfl)

end SelectorMangling.Site
