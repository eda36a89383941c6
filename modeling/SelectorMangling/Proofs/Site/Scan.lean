import SelectorMangling.Proofs.Catalog.Growth
import SelectorMangling.Proofs.Extraction.Candidate
import SelectorMangling.Proofs.Site.Workspace
import SelectorMangling.Site.Scan

/-!
# What a scan does to the workspace

A scan only reads the files.  Whatever it comes to, the catalog has grown by candidates of the files
that were read until then.
-/

namespace SelectorMangling

/-- Whether a name is a candidate of some source file. -/
def Rules.IsCandidate (rules : Rules) (name : String) : Prop :=
  ∃ kind content, name ∈ rules.candidates kind content

/-- Growing by candidates never brings in a name that is spelled like the member of the counter. -/
theorem Catalog.Grows.countKey_notMem {rules : Rules} {earlier later : Catalog}
    (hgrows : Grows rules.IsCandidate earlier later) (hfree : countKey ∉ earlier.names) :
    countKey ∉ later.names := by
  intro hmem
  rcases hgrows.mem_names hmem with hold | ⟨kind, content, hname⟩
  · exact hfree hold
  · exact rules.countKey_notMem_candidates kind content hname

namespace Site

variable {holds : Workspace → Prop} {settings : Settings} {rules : Rules}

theorem outcome_listFiles (folder : Path) (workspace : Workspace) :
    outcome (listFiles folder) workspace =
      ((sourceFiles workspace.tree folder).mapError (.list folder), workspace) := by
  simp only [listFiles, outcome_bind, outcome_get]
  cases sourceFiles workspace.tree folder <;> rfl

theorem outcome_listFolders (settings : Settings) (root : Path) (workspace : Workspace) :
    ∃ events, outcome (listFolders settings root) workspace =
      ((featureFolders workspace.tree settings root).mapError (.walk root),
        { workspace with events }) := by
  simp only [listFolders, outcome_bind, outcome_get, outcome_tellAll]
  cases featureFolders workspace.tree settings root with
  | ok folders => exact ⟨_, rfl⟩
  | error fault => exact ⟨_, rfl⟩

theorem Keeps.listFiles (folder : Path) : Keeps holds (listFiles folder) := by
  intro workspace hholds
  rw [outcome_listFiles]
  exact hholds

theorem Keeps.listFolders (hevents : IgnoresEvents holds) (settings : Settings) (root : Path) :
    Keeps holds (listFolders settings root) := by
  intro workspace hholds
  obtain ⟨events, houtcome⟩ := outcome_listFolders settings root workspace
  rw [houtcome]
  exact hevents workspace events hholds

theorem Keeps.scanFiles (hevents : IgnoresEvents holds)
    (hfile : ∀ file, Keeps holds (scanFile rules file)) (folder : Path) (stats : ScanStats)
    (files : List SourceFile) : Keeps holds (scanFiles rules folder stats files) := by
  induction files generalizing stats with
  | nil => exact .pure stats
  | cons file rest ih =>
    rw [Site.scanFiles]
    apply ((hfile file).onFault hevents _).bind_any
    intro added
    exact ih _

theorem Keeps.scanFolders (hevents : IgnoresEvents holds)
    (hfile : ∀ file, Keeps holds (scanFile rules file)) (stats : ScanStats)
    (folders : List Path) : Keeps holds (scanFolders rules stats folders) := by
  induction folders generalizing stats with
  | nil => exact .pure stats
  | cons folder rest ih =>
    rw [Site.scanFolders]
    have hlist : Keeps holds (Site.listFiles folder) := .listFiles folder
    apply hlist.bind_any
    intro files
    apply (Keeps.scanFiles hevents hfile folder stats files).bind_any
    intro stats
    exact ih stats

/-- What scanning one file keeps, a scan keeps. -/
theorem Keeps.scan (hevents : IgnoresEvents holds)
    (hfile : ∀ file, Keeps holds (scanFile rules file)) (settings : Settings) (root : Path) :
    Keeps holds (scan settings rules root) :=
  (Keeps.listFolders hevents settings root).bind_any fun folders =>
    Keeps.scanFolders hevents hfile {} folders

/-- Scanning a file extends the catalog by the candidates of its text, if it can be read. -/
theorem outcome_scanFile (rules : Rules) (file : SourceFile) (workspace : Workspace) :
    (outcome (scanFile rules file) workspace).2.tree = workspace.tree ∧
      (outcome (scanFile rules file) workspace).2.catalog =
        match workspace.tree.readText file.path with
        | .ok content => (workspace.catalog.grow (rules.candidates file.kind content)).catalog
        | .error _ => workspace.catalog := by
  simp only [scanFile, outcome_bind, outcome_readFile]
  cases workspace.tree.readText file.path with
  | error fault => exact ⟨rfl, rfl⟩
  | ok content =>
    simp only [Except.mapError, outcome_get, outcome_modify, outcome_tellAll]
    cases (workspace.catalog.grow (rules.candidates file.kind content)).exhausted with
    | none => exact ⟨rfl, rfl⟩
    | some cause => exact ⟨rfl, rfl⟩

theorem catalog_scanFile_of_readText {rules : Rules} {file : SourceFile} {workspace : Workspace}
    {content : String} (hread : workspace.tree.readText file.path = .ok content) :
    (outcome (scanFile rules file) workspace).2.catalog =
      (workspace.catalog.grow (rules.candidates file.kind content)).catalog := by
  rw [(outcome_scanFile rules file workspace).2, hread]

theorem grows_scanFile (rules : Rules) (file : SourceFile) (workspace : Workspace) :
    Catalog.Grows rules.IsCandidate workspace.catalog
      (outcome (scanFile rules file) workspace).2.catalog := by
  rw [(outcome_scanFile rules file workspace).2]
  cases workspace.tree.readText file.path with
  | error fault => exact .refl
  | ok content => exact Catalog.grows_grow _ fun name hname => ⟨file.kind, content, hname⟩

/-- A scan leaves the files alone and lets the catalog grow by candidates. -/
theorem grows_scan (settings : Settings) (rules : Rules) (root : Path) (workspace : Workspace) :
    (outcome (scan settings rules root) workspace).2.tree = workspace.tree ∧
      Catalog.Grows rules.IsCandidate workspace.catalog
        (outcome (scan settings rules root) workspace).2.catalog := by
  have hfile : ∀ file, Keeps (fun later => later.tree = workspace.tree ∧
      Catalog.Grows rules.IsCandidate workspace.catalog later.catalog) (scanFile rules file) := by
    rintro file later ⟨htree, hgrows⟩
    exact ⟨(outcome_scanFile rules file later).1.trans htree,
      hgrows.trans (grows_scanFile rules file later)⟩
  exact Keeps.scan (fun _ _ hholds => hholds) hfile settings root workspace ⟨rfl, .refl⟩

end Site

end SelectorMangling
