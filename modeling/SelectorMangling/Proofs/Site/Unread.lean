import SelectorMangling.Proofs.Site.Rewrite

/-!
# Files that a scan does not read

Work that does not look into a file does the same whatever the file holds.  A scan looks into the
source files of a locale only, since the lists of folders and files do not depend on contents.
-/

namespace SelectorMangling.Site

variable {α β : Type} {tree : FileTree} {location : Location} {settings : Settings} {root : Path}

/-- The workspace with another content of a file. -/
def withContent (location : Location) (content : ByteArray) (workspace : Workspace) : Workspace :=
  { workspace with tree := workspace.tree.set location (.file content) }

/-- Work on a tree leaves the tree, and comes to the same whatever the file at a location holds. -/
def Overlooks (tree : FileTree) (location : Location) (work : Work α) : Prop :=
  ∀ workspace content, workspace.tree = tree →
    (outcome work workspace).2.tree = tree ∧
      outcome work (withContent location content workspace) =
        ((outcome work workspace).1, withContent location content (outcome work workspace).2)

namespace Overlooks

theorem pure (value : α) : Overlooks tree location (pure value : Work α) :=
  fun _ _ htree => ⟨htree, rfl⟩

theorem bind {work : Work α} {next : α → Work β} {expected : α → Prop}
    (hwork : Overlooks tree location work) (hyields : Yields (·.tree = tree) work expected)
    (hnext : ∀ value, expected value → Overlooks tree location (next value)) :
    Overlooks tree location (work >>= next) := by
  intro workspace content htree
  obtain ⟨hsame, houtcome⟩ := hwork workspace content htree
  have hvalue := fun value => hyields workspace value htree
  rw [outcome_bind, outcome_bind, houtcome]
  cases hfirst : outcome work workspace with
  | mk result left =>
    rw [hfirst] at hsame hvalue
    cases result with
    | error fault => exact ⟨hsame, rfl⟩
    | ok value => exact hnext value (hvalue value rfl) left content hsame

theorem bind_any {work : Work α} {next : α → Work β} (hwork : Overlooks tree location work)
    (hnext : ∀ value, Overlooks tree location (next value)) :
    Overlooks tree location (work >>= next) := by
  have hyields : Yields (·.tree = tree) work fun _ => True := fun _ _ _ _ => trivial
  exact hwork.bind hyields fun value _ => hnext value

theorem onFault {work : Work α} (hwork : Overlooks tree location work) (event : Event) :
    Overlooks tree location (onFault work event) := by
  intro workspace content htree
  obtain ⟨hsame, houtcome⟩ := hwork workspace content htree
  rw [outcome_onFault, outcome_onFault, houtcome]
  cases hfirst : outcome work workspace with
  | mk result left =>
    rw [hfirst] at hsame
    cases result with
    | error fault =>
      dsimp only
      split
      · exact ⟨hsame, rfl⟩
      · exact ⟨hsame, rfl⟩
    | ok value => exact ⟨hsame, rfl⟩

end Overlooks

/-! ## Listing -/

section Listing

variable {old : ByteArray} (hfile : tree.entryAt location = some (.file old))

include hfile

theorem overlooks_listFolders (settings : Settings) (root : Path) :
    Overlooks tree location (listFolders settings root) := by
  rintro workspace content rfl
  have hbare := FileTree.bare_set_file hfile content
  have hfolders : featureFolders (workspace.tree.set location (.file content)) settings root =
      featureFolders workspace.tree settings root := by
    rw [← featureFolders_bare, hbare, featureFolders_bare]
  have hskipped : skippedFolders (workspace.tree.set location (.file content)) settings root =
      skippedFolders workspace.tree settings root := by
    rw [← skippedFolders_bare, hbare, skippedFolders_bare]
  simp only [listFolders, outcome_bind, outcome_get, outcome_tellAll, withContent, hfolders,
    hskipped]
  cases featureFolders workspace.tree settings root with
  | ok folders => exact ⟨rfl, rfl⟩
  | error fault => exact ⟨rfl, rfl⟩

theorem overlooks_listFiles (folder : Path) : Overlooks tree location (listFiles folder) := by
  rintro workspace content rfl
  have hfiles : sourceFiles (workspace.tree.set location (.file content)) folder =
      sourceFiles workspace.tree folder := by
    rw [← sourceFiles_bare, FileTree.bare_set_file hfile, sourceFiles_bare]
  rw [outcome_listFiles, outcome_listFiles, withContent, hfiles]
  exact ⟨rfl, rfl⟩

/-- A file is not looked into if its path leads elsewhere. -/
theorem overlooks_scanFile {rules : Rules} {file : SourceFile}
    (helsewhere : ∀ place entry, tree.find file.path = .ok (place, entry) → place ≠ location) :
    Overlooks tree location (scanFile rules file) := by
  rintro workspace content rfl
  have hfind : (workspace.tree.set location (.file content)).find file.path =
      workspace.tree.find file.path := by
    apply FileTree.find_eq_of_bare_eq (FileTree.bare_set_file hfile content).symm
    intro place held hfound
    rw [workspace.tree.entryAt_set_of_ne _ (helsewhere place _ hfound)]
    exact FileTree.entryAt_of_find hfound
  have hread : (workspace.tree.set location (.file content)).readText file.path =
      workspace.tree.readText file.path := by
    rw [FileTree.readText, hfind, FileTree.readText]
  simp only [scanFile, outcome_bind, outcome_readFile, withContent, hread]
  cases workspace.tree.readText file.path with
  | error fault => exact ⟨rfl, rfl⟩
  | ok text =>
    simp only [Except.mapError, outcome_get, outcome_modify, outcome_tellAll]
    cases (workspace.catalog.grow (rules.candidates file.kind text)).exhausted with
    | none => exact ⟨rfl, rfl⟩
    | some cause => exact ⟨rfl, rfl⟩

/-! ## Scanning -/

omit hfile in
theorem overlooks_scanFiles {rules : Rules} {files : List SourceFile}
    (hfiles : ∀ file ∈ files, Overlooks tree location (scanFile rules file)) (folder : Path)
    (stats : ScanStats) : Overlooks tree location (scanFiles rules folder stats files) := by
  induction files generalizing stats with
  | nil => exact .pure stats
  | cons file rest ih =>
    obtain ⟨hfirst, hrest⟩ := List.forall_mem_cons.mp hfiles
    rw [scanFiles]
    exact (hfirst.onFault _).bind_any fun _ => ih hrest _

theorem overlooks_scanFolders {all : List Path}
    (hall : featureFolders tree settings root = .ok all)
    (hspared : ¬IsSource tree settings root location) (rules : Rules) {folders : List Path}
    (hsubset : ∀ folder ∈ folders, folder ∈ all) (stats : ScanStats) :
    Overlooks tree location (scanFolders rules stats folders) := by
  induction folders generalizing stats with
  | nil => exact .pure stats
  | cons folder rest ih =>
    obtain ⟨hfolder, hrest⟩ := List.forall_mem_cons.mp hsubset
    have hyields : Yields (·.tree = tree) (listFiles folder) fun files =>
        sourceFiles tree folder = .ok files := by
      rintro workspace files rfl hfiles
      rw [outcome_listFiles] at hfiles
      exact mapError_eq_ok_iff.mp hfiles
    rw [scanFolders]
    refine (overlooks_listFiles hfile folder).bind hyields fun files hfiles => ?_
    have hoverlooked : ∀ file ∈ files, Overlooks tree location (scanFile rules file) := by
      intro file hmem
      apply overlooks_scanFile hfile
      rintro place entry hfind rfl
      exact hspared ⟨_, _, ⟨all, folder, files, file, hall, hfolder, hfiles, hmem, rfl⟩, hfind⟩
    exact (overlooks_scanFiles hoverlooked folder stats).bind_any fun stats => ih hrest stats

/-- A scan of a locale comes to the same whatever a file holds that is no source file. -/
theorem overlooks_scan (hspared : ¬IsSource tree settings root location) (rules : Rules) :
    Overlooks tree location (scan settings rules root) := by
  have hyields : Yields (·.tree = tree) (listFolders settings root) fun folders =>
      featureFolders tree settings root = .ok folders := by
    rintro workspace folders rfl hfolders
    obtain ⟨events, houtcome⟩ := outcome_listFolders settings root workspace
    rw [houtcome] at hfolders
    exact mapError_eq_ok_iff.mp hfolders
  rw [scan]
  exact (overlooks_listFolders hfile settings root).bind hyields fun folders hfolders =>
    overlooks_scanFolders hfile hfolders hspared rules (fun _ hmem => hmem) {}

end Listing

end SelectorMangling.Site
