import SelectorMangling.Proofs.FileTree.Content
import SelectorMangling.Proofs.Result
import SelectorMangling.Proofs.Rewriting.Turn
import SelectorMangling.Proofs.Site.Scan
import SelectorMangling.Site.Rewrite

/-!
# What rewriting does to the files

Rewriting a locale replaces contents of its source files and nothing else.  The lists of folders and
files do not depend on contents, so they stay the same all along.
-/

namespace SelectorMangling.Site

open Rewriting

variable {settings : Settings} {root : Path}

theorem sourceFiles_bare (tree : FileTree) (folder : Path) :
    sourceFiles tree.bare folder = sourceFiles tree folder := by
  simp only [sourceFiles, FileTree.find_bare, FileTree.children_bare]
  cases tree.find folder with
  | error fault => rfl
  | ok found =>
    have hfile : ∀ child : String × Entry,
        sourceFile? folder child.1 child.2.bare = sourceFile? folder child.1 child.2 := by
      intro child
      rw [sourceFile?, sourceFile?, Entry.isFile_bare]
    simp only [Except.map, bind, Except.bind, List.filterMap_map, Function.comp_def, hfile,
      Entry.isDirectory_bare]

theorem hasIndex_bare (tree : FileTree) (settings : Settings) :
    hasIndex tree.bare settings = hasIndex tree settings := by
  funext directory
  rw [hasIndex, hasIndex, FileTree.isFile_bare]

theorem searchedDirectories_bare (tree : FileTree) (settings : Settings) (root : Path) :
    searchedDirectories tree.bare settings root = searchedDirectories tree settings root := by
  rw [searchedDirectories, searchedDirectories, FileTree.walk_bare]

theorem featureFolders_bare (tree : FileTree) (settings : Settings) (root : Path) :
    featureFolders tree.bare settings root = featureFolders tree settings root := by
  rw [featureFolders, featureFolders, searchedDirectories_bare, hasIndex_bare]

theorem skippedFolders_bare (tree : FileTree) (settings : Settings) (root : Path) :
    skippedFolders tree.bare settings root = skippedFolders tree settings root := by
  rw [skippedFolders, skippedFolders, searchedDirectories_bare, hasIndex_bare]

/-- Whether a path is that of a source file of a locale. -/
def IsSourcePath (tree : FileTree) (settings : Settings) (root path : Path) : Prop :=
  ∃ folders folder files file, featureFolders tree settings root = .ok folders ∧
    folder ∈ folders ∧ sourceFiles tree folder = .ok files ∧ file ∈ files ∧ file.path = path

/-- Whether a source file of a locale stands at a location. -/
def IsSource (tree : FileTree) (settings : Settings) (root : Path) (location : Location) : Prop :=
  ∃ path entry, IsSourcePath tree settings root path ∧ tree.find path = .ok (location, entry)

theorem isSource_of_bare_eq {left right : FileTree} (hbare : left.bare = right.bare)
    {location : Location} (hsource : IsSource left settings root location) :
    IsSource right settings root location := by
  obtain ⟨path, entry, ⟨folders, folder, files, file, hfolders, hfolder, hfiles, hfile⟩, hfind⟩ :=
    hsource
  obtain ⟨other, hother, -⟩ := FileTree.exists_find_of_bare_eq hbare hfind
  rw [← featureFolders_bare, hbare, featureFolders_bare] at hfolders
  rw [← sourceFiles_bare, hbare, sourceFiles_bare] at hfiles
  exact ⟨path, other, ⟨folders, folder, files, file, hfolders, hfolder, hfiles, hfile⟩, hother⟩

/-- A workspace differs from an earlier one at most in the contents of source files. -/
structure Rewritten (settings : Settings) (root : Path) (earlier later : Workspace) : Prop where
  catalog_eq : later.catalog = earlier.catalog
  bare_eq : later.tree.bare = earlier.tree.bare
  entryAt_eq : ∀ location, ¬IsSource earlier.tree settings root location →
    later.tree.entryAt location = earlier.tree.entryAt location

theorem rewritten_refl (workspace : Workspace) : Rewritten settings root workspace workspace :=
  ⟨rfl, rfl, fun _ _ => rfl⟩

theorem ignoresEvents_rewritten (earlier : Workspace) :
    IgnoresEvents (Rewritten settings root earlier) :=
  fun _ _ hrewritten => ⟨hrewritten.catalog_eq, hrewritten.bare_eq, hrewritten.entryAt_eq⟩

/-- What rewriting a file does to the workspace: nothing, or the content of the file is replaced. -/
theorem outcome_rewriteFile (rewriter : Rewriter) (file : Path) (workspace : Workspace) :
    (outcome (rewriteFile rewriter file) workspace).2.catalog = workspace.catalog ∧
      ((outcome (rewriteFile rewriter file) workspace).2.tree = workspace.tree ∨
        ∃ location old content, workspace.tree.find file = .ok (location, .file old) ∧
          (outcome (rewriteFile rewriter file) workspace).2.tree =
            workspace.tree.set location (.file content)) := by
  simp only [rewriteFile, outcome_bind, outcome_readFile]
  cases hread : workspace.tree.readText file with
  | error fault => exact ⟨rfl, .inl rfl⟩
  | ok text =>
    obtain ⟨location, old, hfind, -⟩ := FileTree.find_of_readText hread
    dsimp only [Except.mapError]
    cases rewriter.run text with
    | none => exact ⟨rfl, .inl rfl⟩
    | some progress =>
      simp only [outcome_bind, outcome_tellAll, outcome_writeFile]
      cases hwrite : workspace.tree.writeText file (String.ofList progress.text) with
      | error fault => exact ⟨rfl, .inl rfl⟩
      | ok written =>
        exact ⟨rfl, .inr ⟨location, old, _, hfind, FileTree.writeBytes_of_find hfind hwrite⟩⟩

theorem keeps_rewriteFile {earlier : Workspace} {path : Path}
    (hpath : IsSourcePath earlier.tree settings root path) (rewriter : Rewriter) :
    Keeps (Rewritten settings root earlier) (rewriteFile rewriter path) := by
  intro workspace hrewritten
  have ⟨hcatalog, htree⟩ := outcome_rewriteFile rewriter path workspace
  have hcatalogEarlier := hcatalog.trans hrewritten.catalog_eq
  cases htree with
  | inl hsame =>
    have hbare := congrArg FileTree.bare hsame
    apply Rewritten.mk hcatalogEarlier (hbare.trans hrewritten.bare_eq)
    intro location hspared
    rw [hsame, hrewritten.entryAt_eq location hspared]
  | inr hreplaced =>
    obtain ⟨location, old, content, hfind, hset⟩ := hreplaced
    have hbare : (outcome (rewriteFile rewriter path) workspace).2.tree.bare =
        workspace.tree.bare := by
      rw [hset, FileTree.bare_set_file (FileTree.entryAt_of_find hfind)]
    apply Rewritten.mk hcatalogEarlier (hbare.trans hrewritten.bare_eq)
    intro other hspared
    have hne : other ≠ location := by
      intro heq
      obtain ⟨entry, hearlier, -⟩ := FileTree.exists_find_of_bare_eq hrewritten.bare_eq hfind
      rw [heq] at hspared
      exact hspared ⟨path, entry, hpath, hearlier⟩
    rw [hset, workspace.tree.entryAt_set_of_ne _ hne, hrewritten.entryAt_eq other hspared]

theorem keeps_rewriteFiles {holds : Workspace → Prop} (hevents : IgnoresEvents holds)
    {rewriter : Rewriter} {files : List SourceFile}
    (hfiles : ∀ file ∈ files, Keeps holds (rewriteFile rewriter file.path)) (folder : Path)
    (count : Nat) : Keeps holds (rewriteFiles rewriter folder count files) := by
  induction files generalizing count with
  | nil => exact .pure count
  | cons file rest ih =>
    have ⟨hfile, hrest⟩ := List.forall_mem_cons.mp hfiles
    rw [rewriteFiles]
    apply (hfile.onFault hevents _).bind_any
    intro _
    apply (Keeps.tell hevents _).bind_any
    intro _
    exact ih hrest (count + 1)

theorem yields_listFiles (earlier : Workspace) (folder : Path) :
    Yields (Rewritten settings root earlier) (listFiles folder) fun files =>
      sourceFiles earlier.tree folder = .ok files := by
  intro workspace files hrewritten hfiles
  rw [outcome_listFiles, ← sourceFiles_bare, hrewritten.bare_eq, sourceFiles_bare] at hfiles
  exact mapError_eq_ok_iff.mp hfiles

theorem keeps_rewriteFolders {earlier : Workspace} {all : List Path}
    (hall : featureFolders earlier.tree settings root = .ok all) (rewriter : Rewriter)
    {folders : List Path} (hsubset : ∀ folder ∈ folders, folder ∈ all) (count : Nat) :
    Keeps (Rewritten settings root earlier) (rewriteFolders rewriter count folders) := by
  induction folders generalizing count with
  | nil => exact .pure count
  | cons folder rest ih =>
    have ⟨hfolder, hrest⟩ := List.forall_mem_cons.mp hsubset
    rw [rewriteFolders]
    apply (Keeps.listFiles folder).bind (yields_listFiles earlier folder)
    intro files hfiles
    have hkeeps : ∀ file ∈ files,
        Keeps (Rewritten settings root earlier) (rewriteFile rewriter file.path) := by
      intro file hfile
      exact keeps_rewriteFile ⟨all, folder, files, file, hall, hfolder, hfiles, hfile, rfl⟩ rewriter
    apply (keeps_rewriteFiles (ignoresEvents_rewritten earlier) hkeeps folder count).bind_any
    intro count
    exact ih hrest count

/-- Rewriting a locale changes nothing but the contents of its source files, whether it fails on the
way or not. -/
theorem rewritten_rewrite (settings : Settings) (root : Path) (workspace : Workspace) :
    Rewritten settings root workspace (outcome (rewrite settings root) workspace).2 := by
  obtain ⟨events, hfolders⟩ := outcome_listFolders settings root workspace
  simp only [rewrite, outcome_bind, outcome_get, hfolders]
  have hrefl : Rewritten settings root workspace { workspace with events } :=
    ignoresEvents_rewritten workspace workspace events (rewritten_refl workspace)
  cases hall : featureFolders workspace.tree settings root with
  | error fault => exact hrefl
  | ok folders => exact keeps_rewriteFolders hall _ (fun _ hfolder => hfolder) 0 _ hrefl

/-- A path that leads to no source file leads to the same entry after the rewriting. -/
theorem Rewritten.find_eq {earlier later : Workspace}
    (hrewritten : Rewritten settings root earlier later) {path : Path}
    (hspared : ∀ location entry, earlier.tree.find path = .ok (location, entry) →
      ¬IsSource earlier.tree settings root location) :
    later.tree.find path = earlier.tree.find path := by
  apply FileTree.find_eq_of_bare_eq hrewritten.bare_eq.symm
  intro location content hfind
  rw [hrewritten.entryAt_eq location (hspared location _ hfind)]
  exact FileTree.entryAt_of_find hfind

/-- Every source file of a locale is listed, can be read and can be written. -/
structure Accessible (tree : FileTree) (settings : Settings) (root : Path) : Prop where
  listed : ∃ folders, featureFolders tree settings root = .ok folders ∧
    ∀ folder ∈ folders, ∃ files, sourceFiles tree folder = .ok files
  readable : ∀ path, IsSourcePath tree settings root path →
    ∃ text, tree.readText path = .ok text
  writable : ∀ path, IsSourcePath tree settings root path → path.text.toList.getLast? ≠ some '/'

/-- A workspace has the files of an earlier one, and its source files can still be read. -/
structure StaysReadable (settings : Settings) (root : Path) (earlier later : Workspace) : Prop where
  bare_eq : later.tree.bare = earlier.tree.bare
  readable : ∀ path, IsSourcePath earlier.tree settings root path →
    ∃ text, later.tree.readText path = .ok text

theorem completes_rewriteFile {earlier : Workspace}
    (haccessible : Accessible earlier.tree settings root) {path : Path}
    (hpath : IsSourcePath earlier.tree settings root path) {rewriter : Rewriter}
    (hends : ∀ text, ∃ progress, rewriter.run text = some progress) :
    Completes (StaysReadable settings root earlier) (rewriteFile rewriter path) := by
  rintro workspace ⟨hbare, hreadable⟩
  obtain ⟨text, hread⟩ := hreadable path hpath
  obtain ⟨location, old, hfind, -⟩ := FileTree.find_of_readText hread
  obtain ⟨progress, hrun⟩ := hends text
  have hold := FileTree.entryAt_of_find hfind
  let content := (String.ofList progress.text).toUTF8
  have hwrite : workspace.tree.writeBytes path content =
      .ok (workspace.tree.set location (.file content)) :=
    FileTree.writeBytes_eq_ok_iff.mpr
      ⟨haccessible.writable path hpath, location, .inr ⟨old, hfind⟩, rfl⟩
  simp only [rewriteFile, outcome_bind, outcome_readFile, hread, Except.mapError, hrun,
    outcome_tellAll, outcome_writeFile, FileTree.writeText, content, hwrite]
  refine ⟨_, _, rfl, (FileTree.bare_set_file hold _).trans hbare, ?_⟩
  intro other hother
  obtain ⟨known, hknown⟩ := hreadable other hother
  exact FileTree.exists_readText_set hold _ hknown

theorem completes_rewriteFiles {holds : Workspace → Prop} (hevents : IgnoresEvents holds)
    {rewriter : Rewriter} {files : List SourceFile}
    (hfiles : ∀ file ∈ files, Completes holds (rewriteFile rewriter file.path)) (folder : Path)
    (count : Nat) : Completes holds (rewriteFiles rewriter folder count files) := by
  induction files generalizing count with
  | nil => exact .pure count
  | cons file rest ih =>
    have ⟨hfile, hrest⟩ := List.forall_mem_cons.mp hfiles
    rw [rewriteFiles]
    apply (hfile.onFault _).bind_any
    intro _
    apply (Completes.tell hevents _).bind_any
    intro _
    exact ih hrest (count + 1)

theorem completes_rewriteFolders {earlier : Workspace}
    (haccessible : Accessible earlier.tree settings root) {all : List Path}
    (hall : featureFolders earlier.tree settings root = .ok all)
    (hlisted : ∀ folder ∈ all, ∃ files, sourceFiles earlier.tree folder = .ok files)
    {rewriter : Rewriter} (hends : ∀ text, ∃ progress, rewriter.run text = some progress)
    {folders : List Path} (hsubset : ∀ folder ∈ folders, folder ∈ all) (count : Nat) :
    Completes (StaysReadable settings root earlier) (rewriteFolders rewriter count folders) := by
  have hevents : IgnoresEvents (StaysReadable settings root earlier) :=
    fun _ _ hholds => ⟨hholds.bare_eq, hholds.readable⟩
  induction folders generalizing count with
  | nil => exact .pure count
  | cons folder rest ih =>
    have ⟨hfolder, hrest⟩ := List.forall_mem_cons.mp hsubset
    rw [rewriteFolders]
    intro workspace hholds
    obtain ⟨files, hfiles⟩ := hlisted folder hfolder
    have hsame : sourceFiles workspace.tree folder = .ok files := by
      rw [← sourceFiles_bare, hholds.bare_eq, sourceFiles_bare, hfiles]
    have hcompletes : ∀ file ∈ files,
        Completes (StaysReadable settings root earlier) (rewriteFile rewriter file.path) := by
      intro file hfile
      exact completes_rewriteFile haccessible
        ⟨all, folder, files, file, hall, hfolder, hfiles, hfile, rfl⟩ hends
    rw [outcome_bind, outcome_listFiles, hsame]
    exact (completes_rewriteFiles hevents hcompletes folder count).bind_any
      (fun count => ih hrest count) workspace hholds

/-- Rewriting a locale with accessible files gives a result if no name is empty. -/
theorem exists_rewrite_eq_ok {workspace : Workspace} (hnames : "" ∉ workspace.catalog.names)
    (haccessible : Accessible workspace.tree settings root) :
    ∃ count left, outcome (rewrite settings root) workspace = (.ok count, left) := by
  obtain ⟨folders, hfolders, hlisted⟩ := haccessible.listed
  obtain ⟨events, houtcome⟩ := outcome_listFolders settings root workspace
  have hstart : StaysReadable settings root workspace { workspace with events } :=
    ⟨rfl, haccessible.readable⟩
  obtain ⟨count, left, hresult, -⟩ := completes_rewriteFolders haccessible hfolders hlisted
    (fun text => exists_finish hnames { rest := text.toList }) (fun _ hfolder => hfolder) 0 _ hstart
  refine ⟨count, left, ?_⟩
  simp only [rewrite, outcome_bind, outcome_get, houtcome, hfolders]
  exact hresult

end SelectorMangling.Site
