import SelectorMangling.Proofs.FileTree.Relisted
import SelectorMangling.Proofs.Path.Extension
import SelectorMangling.Proofs.Site.Additions
import SelectorMangling.Proofs.Site.Order
import SelectorMangling.Proofs.Site.RootFolder

/-!
# In which order directories are listed

The source files of a folder are listed by their groups and names, and folders by their paths.  So a
scan does the same in whatever order the entries of the tree are found.
-/

namespace SelectorMangling.Site

open FileTree

variable {tree left right : FileTree} {settings : Settings} {rules : Rules} {root folder : Path}
  {location : Location}

/-! ## The source files of a folder -/

/-- Source files of a group come by name. -/
theorem SourceFile.Before.name_lt {first last : SourceFile} (hbefore : first.Before last)
    (hgroup : first.kind = .script ↔ last.kind = .script) : first.name < last.name := by
  have hle : first.name ≤ last.name := by
    rcases SourceFile.precedes_iff.mp hbefore.precedes with ⟨hscript, hother⟩ | ⟨-, hle⟩
    · exact absurd (hgroup.mp hscript) hother
    · exact hle
  exact Std.lt_of_le_of_ne hle hbefore.name_ne

/-- Files are the scripts and behind them the other files, each of these groups by name. -/
def InGroups (files : List SourceFile) : Prop :=
  ∃ scripts others, files = scripts ++ others ∧
    (∀ file ∈ scripts, file.kind = .script) ∧ (∀ file ∈ others, file.kind ≠ .script) ∧
      scripts.Pairwise (·.name < ·.name) ∧ others.Pairwise (·.name < ·.name)

theorem inGroups_of_pairwise {files : List SourceFile}
    (hordered : files.Pairwise SourceFile.Before) : InGroups files := by
  induction files with
  | nil => exact ⟨[], [], rfl, by simp, by simp, .nil, .nil⟩
  | cons file rest ih =>
    obtain ⟨hfirst, hrest⟩ := List.pairwise_cons.mp hordered
    obtain ⟨scripts, others, rfl, hscripts, hothers, hsortedScripts, hsortedOthers⟩ := ih hrest
    by_cases hscript : file.kind = .script
    · refine ⟨file :: scripts, others, rfl, List.forall_mem_cons.mpr ⟨hscript, hscripts⟩, hothers,
        List.pairwise_cons.mpr ⟨?_, hsortedScripts⟩, hsortedOthers⟩
      intro later hlater
      exact (hfirst later (List.mem_append_left _ hlater)).name_lt
        (iff_of_true hscript (hscripts later hlater))
    · -- Nothing behind a file that is no script is a script.
      obtain rfl : scripts = [] := by
        apply List.eq_nil_iff_forall_not_mem.mpr
        intro later hlater
        have hbefore := (hfirst later (List.mem_append_left _ hlater)).precedes
        simp [SourceFile.precedes_iff, hscript, hscripts later hlater] at hbefore
      refine ⟨[], file :: others, rfl, hscripts, List.forall_mem_cons.mpr ⟨hscript, hothers⟩, .nil,
        List.pairwise_cons.mpr ⟨?_, hsortedOthers⟩⟩
      intro later hlater
      exact (hfirst later hlater).name_lt (iff_of_false hscript (hothers later hlater))

/-- The source files of a folder: the files in it with one of the extensions, each once and in the
order of their groups and names. -/
structure ListsSources (tree : FileTree) (folder : Path) (location : Location)
    (files : List SourceFile) : Prop where
  mem_iff : ∀ file, file ∈ files ↔
    (∃ content, tree.entryAt (location ++ [file.name]) = some (.file content)) ∧
      file.path = folder.child file.name ∧
        ∃ stem, stem ≠ "" ∧ file.name = stem ++ "." ++ file.kind.extension
  nodup : (files.map SourceFile.name).Nodup
  groups : InGroups files

theorem listsSources_filesIn (hnamed : tree.HasEntryNames)
    (hfolder : tree.find folder = .ok (location, .directory)) :
    ListsSources tree folder location (filesIn tree folder) where
  mem_iff := by
    have hsome := text_ne_empty_of_resolve (find_eq_ok_iff.mp hfolder)
    have hkind : ∀ {name content}, tree.entryAt (location ++ [name]) = some (.file content) →
        ∀ {kind}, SourceKind.ofPath? (folder.child name) = some kind ↔
          ∃ stem, stem ≠ "" ∧ name = stem ++ "." ++ kind.extension :=
      fun hentry => SourceKind.ofPath?_child_iff hsome (hnamed _ _ hentry _ (by simp))
    intro file
    rw [mem_filesIn_of_find hfolder]
    constructor
    · rintro ⟨name, content, kind, hentry, hof, rfl⟩
      exact ⟨⟨content, hentry⟩, rfl, (hkind hentry).mp hof⟩
    · rintro ⟨⟨content, hentry⟩, hpath, hstem⟩
      refine ⟨file.name, content, file.kind, hentry, (hkind hentry).mpr hstem, ?_⟩
      rw [← hpath]
  nodup := nodup_filesIn_of_find hfolder
  groups := inGroups_of_pairwise (pairwise_before_filesIn hfolder)

/-! ## Trees that are listed in another order -/

section SameEntries

variable (hsame : SameEntries left right)
include hsame

theorem sourceFiles_eq_of_sameEntries : sourceFiles left = sourceFiles right := by
  funext folder
  cases hfind : left.find folder with
  | error fault =>
    rw [sourceFiles, sourceFiles, ← hsame.find_eq, hfind]
    rfl
  | ok found =>
    obtain ⟨location, entry⟩ := found
    have hother : right.find folder = .ok (location, entry) := by rw [← hsame.find_eq, hfind]
    cases entry with
    | directory =>
      rw [sourceFiles_eq_filesIn hfind, sourceFiles_eq_filesIn hother]
      congr 1
      apply filesIn_eq_of_entryAt hother hfind
      intro name content
      rw [hsame.entryAt_eq]
    | file content =>
      rw [sourceFiles, sourceFiles, hfind, hother]
      rfl
    | link target =>
      rw [sourceFiles, sourceFiles, hfind, hother]
      rfl

theorem directoriesBelow_eq_of_sameEntries (admits : String → Bool) (base : Location) :
    left.directoriesBelow admits base = right.directoriesBelow admits base := by
  have hordered : ∀ tree : FileTree, (tree.directoriesBelow admits base).Pairwise (· < ·) :=
    fun tree => (List.pairwise_cons.mp (IsRoot.pairwise_visited tree admits base)).2
  apply (hordered left).eq_of_mem_iff (hordered right)
  intro names
  exact hsame.mem_directoriesBelow_iff

theorem featureFolders_eq_of_sameEntries :
    featureFolders left settings root = featureFolders right settings root := by
  have hwalk : left.walk (isSearched settings) root = right.walk (isSearched settings) root := by
    rw [walk, walk, hsame.findLink_eq, hsame.find_eq]
    simp only [directoriesBelow_eq_of_sameEntries hsame]
  have hindex : hasIndex left settings = hasIndex right settings := by
    funext directory
    rw [hasIndex, hasIndex, hsame.isFile_eq]
  rw [featureFolders, featureFolders, searchedDirectories, searchedDirectories, hwalk, hindex]

theorem sources_eq_of_sameEntries : sources left settings root = sources right settings root := by
  have hfiles : filesIn left = filesIn right := by
    funext folder
    rw [filesIn, filesIn, sourceFiles_eq_of_sameEntries hsame]
  rw [sources, sources, featureFolders_eq_of_sameEntries hsame, hfiles]

/-- A scan comes across the same. -/
theorem course_eq_of_sameEntries : course left settings root = course right settings root := by
  have hread : readOutcome left = readOutcome right := by
    funext file
    rw [readOutcome, readOutcome, readSource, readSource, hsame.readText_eq]
  have hfolder : folderCourse left = folderCourse right := by
    funext folder
    rw [folderCourse, folderCourse, sourceFiles_eq_of_sameEntries hsame, hread]
  rw [course, course, featureFolders_eq_of_sameEntries hsame, hfolder]

end SameEntries

/-- A scan gives the same result and the same catalog. -/
theorem outcome_scan_of_sameEntries {first last : Workspace}
    (hsame : SameEntries first.tree last.tree) (hcatalog : first.catalog = last.catalog) :
    (outcome (scan settings rules root) first).1 = (outcome (scan settings rules root) last).1 ∧
      (outcome (scan settings rules root) first).2.catalog =
        (outcome (scan settings rules root) last).2.catalog := by
  have hfirst := passes_scan settings rules root first.tree
  have hlast := passes_scan settings rules root last.tree
  rw [← course_eq_of_sameEntries hsame] at hlast
  obtain ⟨-, hfirstGrown, hfirstFault⟩ := hfirst first rfl
  obtain ⟨-, hlastGrown, hlastFault⟩ := hlast last rfl
  rw [← hcatalog] at hlastGrown hlastFault
  have hgrown := hfirstGrown.trans hlastGrown.symm
  have hfault := hfirstFault.trans hlastFault.symm
  refine ⟨?_, hgrown⟩
  cases hresult : (outcome (scan settings rules root) first).1 with
  | error fault =>
    rw [hresult, fault?, eq_comm, fault?_eq_some_iff] at hfault
    exact hfault.symm
  | ok stats =>
    cases hother : (outcome (scan settings rules root) last).1 with
    | error fault => simp [hresult, hother, fault?] at hfault
    | ok others =>
      have hstats := stats_of_scan (Prod.ext hresult rfl) hfirst.extends_catalog
      have hothers := stats_of_scan (Prod.ext hother rfl) hlast.extends_catalog
      rw [hstats, hothers, sources_eq_of_sameEntries hsame, hcatalog]

/-- The source files of a folder are the same in whatever order the entries of the tree are listed.
They are the files in the folder with one of the three extensions, each once, scripts first and each
group by name.  So a scan gives the same codes. -/
theorem source_files_unordered (hsame : SameEntries left right) (hnamed : left.HasEntryNames) :
    (∀ folder, sourceFiles left folder = sourceFiles right folder) ∧
      (∀ folder location, left.find folder = .ok (location, .directory) →
        ∃ files, sourceFiles left folder = .ok files ∧ ListsSources left folder location files) ∧
      ∀ settings rules root (first last : Workspace), first.tree = left → last.tree = right →
        first.catalog = last.catalog →
        (outcome (scan settings rules root) first).1 =
            (outcome (scan settings rules root) last).1 ∧
          (outcome (scan settings rules root) first).2.catalog =
            (outcome (scan settings rules root) last).2.catalog := by
  refine ⟨?_, ?_, ?_⟩
  · intro folder
    rw [sourceFiles_eq_of_sameEntries hsame]
  · intro folder location hfolder
    exact ⟨_, sourceFiles_eq_filesIn hfolder, listsSources_filesIn hnamed hfolder⟩
  · rintro settings rules root first last rfl rfl hcatalog
    exact outcome_scan_of_sameEntries hsame hcatalog

/-- A folder with files of both groups, a script that is only a link, and a directory that is named
like a script. -/
def mixedTree : FileTree where
  entries :=
    [(["r"], .directory), (["r", "b.js"], .file .empty), (["r", "a.css"], .file .empty),
     (["r", "a.js"], .file .empty), (["r", "c.js"], .link ⟨"a.js"⟩), (["r", "d.js"], .directory),
     (["r", "js"], .file .empty), (["r", ".css"], .file .empty)]
  locations_nodup := by
    change [["r"], ["r", "b.js"], ["r", "a.css"], ["r", "a.js"], ["r", "c.js"], ["r", "d.js"],
      ["r", "js"], ["r", ".css"]].Nodup
    decide

/-- The same folder, listed from its other end. -/
def mixedTreeReversed : FileTree where
  entries := mixedTree.entries.reverse
  locations_nodup := by
    rw [List.map_reverse, List.nodup_reverse]
    exact mixedTree.locations_nodup

theorem source_files_unordered_mixedTree :
    SameEntries mixedTree mixedTreeReversed ∧ mixedTree.HasEntryNames ∧
      (mixedTree.children ["r"]).map Prod.fst ≠ (mixedTreeReversed.children ["r"]).map Prod.fst ∧
      sourceFiles mixedTreeReversed ⟨"/r"⟩ = .ok [⟨⟨"/r/a.js"⟩, "a.js", .script⟩,
        ⟨⟨"/r/b.js"⟩, "b.js", .script⟩, ⟨⟨"/r/a.css"⟩, "a.css", .style⟩] ∧
      ListsSources mixedTree ⟨"/r"⟩ ["r"] [⟨⟨"/r/a.js"⟩, "a.js", .script⟩,
        ⟨⟨"/r/b.js"⟩, "b.js", .script⟩, ⟨⟨"/r/a.css"⟩, "a.css", .style⟩] ∧
      ∀ settings rules,
        (outcome (scan settings rules ⟨"/r"⟩) { tree := mixedTree }).2.catalog =
          (outcome (scan settings rules ⟨"/r"⟩) { tree := mixedTreeReversed }).2.catalog := by
  have hsame : SameEntries mixedTree mixedTreeReversed := ⟨(List.reverse_perm _).symm, rfl⟩
  have hnamed : mixedTree.HasEntryNames := by decide +kernel
  obtain ⟨hfiles, hlists, hscan⟩ := source_files_unordered hsame hnamed
  have hroot : mixedTree.find ⟨"/r"⟩ = .ok (["r"], .directory) := find_of_resolveWithin 3 rfl
  have hlisted : sourceFiles mixedTree ⟨"/r"⟩ = .ok [⟨⟨"/r/a.js"⟩, "a.js", .script⟩,
      ⟨⟨"/r/b.js"⟩, "b.js", .script⟩, ⟨⟨"/r/a.css"⟩, "a.css", .style⟩] :=
    sourceFiles_of_perm hroot (by decide +kernel) (by decide +kernel)
  obtain ⟨files, hok, hexact⟩ := hlists _ _ hroot
  obtain rfl := Except.ok.inj (hlisted.symm.trans hok)
  refine ⟨hsame, hnamed, by decide +kernel, (hfiles _).symm.trans hlisted, hexact, ?_⟩
  intro settings rules
  exact (hscan settings rules _ { tree := mixedTree } { tree := mixedTreeReversed } rfl rfl rfl).2

end SelectorMangling.Site
