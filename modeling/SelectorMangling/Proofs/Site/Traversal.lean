import SelectorMangling.Proofs.Site.Source

/-!
# Going through the source files

A scan that ends without a fault has read every source file once, and counts the names that came in.
A rewriting that ends without a fault has read and written every source file once, in the order in
which they are listed.
-/

namespace SelectorMangling

/-- The names that come in are counted. -/
theorem Catalog.size_grow (catalog : Catalog) (stream : List String) :
    (catalog.grow stream).catalog.size = catalog.size + (catalog.grow stream).added.length := by
  induction stream generalizing catalog with
  | nil => rfl
  | cons name rest ih =>
    rw [grow]
    split
    · exact ih catalog
    · next hcontains =>
      split
      · rfl
      · next code larger hadd =>
        have hnew : name ∉ catalog.names := by simpa [contains] using hcontains
        have hlarger : larger.size = catalog.size + 1 := by
          rw [size, (add_eq_ok hnew hadd).2.1]
          simp [size]
        simp only [ih larger, hlarger, List.length_cons]
        omega

namespace Site

open Rewriting

variable {settings : Settings} {rules : Rules} {root : Path} {workspace left : Workspace}

theorem onFault_eq_ok {α : Type} {work : Work α} {event : Event} {value : α}
    (houtcome : outcome (onFault work event) workspace = (.ok value, left)) :
    outcome work workspace = (.ok value, left) := by
  rw [outcome_onFault] at houtcome
  split at houtcome
  · next found between hwork => rwa [hwork]
  · simp at houtcome

theorem readFile_eq_ok {path : Path} {text : String}
    (houtcome : outcome (readFile path) workspace = (.ok text, left)) :
    workspace.tree.readText path = .ok text ∧ left = workspace := by
  rw [outcome_readFile, Prod.mk.injEq] at houtcome
  exact ⟨mapError_eq_ok_iff.mp houtcome.1, houtcome.2.symm⟩

theorem listFiles_eq_ok {folder : Path} {files : List SourceFile}
    (houtcome : outcome (listFiles folder) workspace = (.ok files, left)) :
    sourceFiles workspace.tree folder = .ok files ∧ left = workspace := by
  rw [outcome_listFiles, Prod.mk.injEq] at houtcome
  exact ⟨mapError_eq_ok_iff.mp houtcome.1, houtcome.2.symm⟩

theorem filesIn_of_sourceFiles {tree : FileTree} {folder : Path} {files : List SourceFile}
    (hfiles : sourceFiles tree folder = .ok files) : filesIn tree folder = files := by
  rw [filesIn, hfiles]

theorem filesIn_eq_of_bare_eq {left right : FileTree} (hbare : left.bare = right.bare) :
    filesIn left = filesIn right := by
  funext folder
  rw [filesIn, filesIn, ← sourceFiles_bare, hbare, sourceFiles_bare]

theorem listFolders_eq_ok {folders : List Path}
    (houtcome : outcome (listFolders settings root) workspace = (.ok folders, left)) :
    featureFolders workspace.tree settings root = .ok folders ∧ left.tree = workspace.tree ∧
      left.catalog = workspace.catalog := by
  obtain ⟨events, hfolders⟩ := outcome_listFolders settings root workspace
  rw [hfolders, Prod.mk.injEq] at houtcome
  obtain ⟨hlisted, rfl⟩ := houtcome
  exact ⟨mapError_eq_ok_iff.mp hlisted, rfl, rfl⟩

theorem sources_of_featureFolders {tree : FileTree} {folders : List Path}
    (hfolders : featureFolders tree settings root = .ok folders) :
    sources tree settings root = folders.flatMap (filesIn tree) := by
  rw [sources, hfolders]

/-! ## Scanning -/

/-- What scanning files one after another comes to. -/
structure Scanned (files : List SourceFile) (earlier : ScanStats) (before : Workspace)
    (later : ScanStats) (after : Workspace) : Prop where
  tree_eq : after.tree = before.tree
  scannedFiles_eq : later.scannedFiles = earlier.scannedFiles + files.length
  size_eq : before.catalog.size + later.addedSelectors =
    after.catalog.size + earlier.addedSelectors
  readable : ∀ file ∈ files, ∃ text, before.tree.readText file.path = .ok text

namespace Scanned

variable {earlier stats later : ScanStats} {before between after : Workspace}
  {files others : List SourceFile}

theorem nil (stats : ScanStats) (workspace : Workspace) :
    Scanned [] stats workspace stats workspace :=
  ⟨rfl, rfl, rfl, List.forall_mem_nil _⟩

theorem append (hfirst : Scanned files earlier before stats between)
    (hlast : Scanned others stats between later after) :
    Scanned (files ++ others) earlier before later after where
  tree_eq := hlast.tree_eq.trans hfirst.tree_eq
  scannedFiles_eq := by
    rw [hlast.scannedFiles_eq, hfirst.scannedFiles_eq, List.length_append, Nat.add_assoc]
  size_eq := by
    have hbefore := hfirst.size_eq
    have hafter := hlast.size_eq
    omega
  readable := by
    intro file hfile
    rcases List.mem_append.mp hfile with hearlier | hlater
    · exact hfirst.readable file hearlier
    · rw [← hfirst.tree_eq]
      exact hlast.readable file hlater

end Scanned

theorem scanFile_eq_ok {file : SourceFile} {added : Nat}
    (houtcome : outcome (scanFile rules file) workspace = (.ok added, left)) (stats : ScanStats) :
    Scanned [file] stats workspace ⟨stats.scannedFiles + 1, stats.addedSelectors + added⟩ left := by
  rw [scanFile] at houtcome
  obtain ⟨content, read, hread, hnext⟩ := outcome_bind_eq_ok houtcome
  obtain ⟨htext, rfl⟩ := readFile_eq_ok hread
  simp only [outcome_bind, outcome_get, outcome_modify, outcome_tellAll] at hnext
  split at hnext
  · rw [outcome_pure, Prod.mk.injEq, Except.ok.injEq] at hnext
    obtain ⟨rfl, rfl⟩ := hnext
    refine ⟨rfl, rfl, ?_, List.forall_mem_singleton.mpr ⟨content, htext⟩⟩
    have hgrow := read.catalog.size_grow (rules.candidates file.kind content)
    simp only [hgrow]
    omega
  · simp at hnext

theorem scanFiles_eq_ok {folder : Path} {files : List SourceFile} {stats later : ScanStats}
    (houtcome : outcome (scanFiles rules folder stats files) workspace = (.ok later, left)) :
    Scanned files stats workspace later left := by
  induction files generalizing stats workspace with
  | nil =>
    simp only [scanFiles, outcome_pure, Prod.mk.injEq, Except.ok.injEq] at houtcome
    obtain ⟨rfl, rfl⟩ := houtcome
    exact .nil stats workspace
  | cons file rest ih =>
    rw [scanFiles] at houtcome
    obtain ⟨added, between, hfile, hrest⟩ := outcome_bind_eq_ok houtcome
    exact (scanFile_eq_ok (onFault_eq_ok hfile) stats).append (ih hrest)

theorem scanFolders_eq_ok {folders : List Path} {stats later : ScanStats}
    (houtcome : outcome (scanFolders rules stats folders) workspace = (.ok later, left)) :
    Scanned (folders.flatMap (filesIn workspace.tree)) stats workspace later left := by
  induction folders generalizing stats workspace with
  | nil =>
    simp only [scanFolders, outcome_pure, Prod.mk.injEq, Except.ok.injEq] at houtcome
    obtain ⟨rfl, rfl⟩ := houtcome
    exact .nil stats workspace
  | cons folder rest ih =>
    rw [scanFolders] at houtcome
    obtain ⟨files, listed, hlisted, hnext⟩ := outcome_bind_eq_ok houtcome
    obtain ⟨hfiles, rfl⟩ := listFiles_eq_ok hlisted
    obtain ⟨middle, between, hscanned, hrest⟩ := outcome_bind_eq_ok hnext
    have hfirst := scanFiles_eq_ok hscanned
    have hlast := ih hrest
    rw [hfirst.tree_eq] at hlast
    rw [List.flatMap_cons, filesIn_of_sourceFiles hfiles]
    exact hfirst.append hlast

/-- A scan that ends without a fault has gone through all source files. -/
theorem scan_eq_ok {stats : ScanStats}
    (houtcome : outcome (scan settings rules root) workspace = (.ok stats, left)) :
    Scanned (sources workspace.tree settings root) {} workspace stats left := by
  rw [scan] at houtcome
  obtain ⟨folders, listed, hlisted, hscanned⟩ := outcome_bind_eq_ok houtcome
  obtain ⟨hfolders, htree, hcatalog⟩ := listFolders_eq_ok hlisted
  obtain ⟨hleft, hcount, hsize, hreadable⟩ := scanFolders_eq_ok hscanned
  rw [htree] at hleft hcount hreadable
  rw [hcatalog] at hsize
  rw [sources_of_featureFolders hfolders]
  exact ⟨hleft, hcount, hsize, hreadable⟩

/-! ## Rewriting -/

/-- Rewriting files one after another. -/
inductive RewriteSteps (rewriter : Rewriter) : List Path → FileTree → FileTree → Prop
  | nil (tree : FileTree) : RewriteSteps rewriter [] tree tree
  | cons {path : Path} {paths : List Path} {tree last : FileTree} {location : Location}
      {text new : String} (hfind : tree.find path = .ok (location, .file text.toUTF8))
      (hnew : rewriter.rewrite text = some new)
      (hrest : RewriteSteps rewriter paths (tree.set location (.file new.toUTF8)) last) :
      RewriteSteps rewriter (path :: paths) tree last

/-- Where paths lead to, if they lead anywhere. -/
def Placed (tree : FileTree) (place : Path → Location) (paths : List Path) : Prop :=
  ∀ path ∈ paths, ∀ location entry, tree.find path = .ok (location, entry) →
    location = place path

theorem Placed.of_bare_eq {tree later : FileTree} {place : Path → Location} {paths : List Path}
    (hplaced : Placed tree place paths) (hbare : later.bare = tree.bare) :
    Placed later place paths := by
  intro path hpath location entry hfind
  obtain ⟨other, hother, -⟩ := FileTree.exists_find_of_bare_eq hbare hfind
  exact hplaced path hpath location other hother

theorem Placed.tail {tree : FileTree} {place : Path → Location} {path : Path} {paths : List Path}
    (hplaced : Placed tree place (path :: paths)) : Placed tree place paths :=
  (List.forall_mem_cons.mp hplaced).2

/-- A text stands at a location, and what a rewriter makes of it stands there later. -/
def RewrittenAt (rewriter : Rewriter) (tree later : FileTree) (location : Location) : Prop :=
  ∃ text new : String, tree.entryAt location = some (.file text.toUTF8) ∧
    rewriter.rewrite text = some new ∧ later.entryAt location = some (.file new.toUTF8)

theorem RewrittenAt.congr {rewriter : Rewriter} {tree other later : FileTree} {location : Location}
    (hrewritten : RewrittenAt rewriter tree later location)
    (hsame : tree.entryAt location = other.entryAt location) :
    RewrittenAt rewriter other later location := by
  obtain ⟨text, new, hbefore, hnew, hafter⟩ := hrewritten
  exact ⟨text, new, hsame ▸ hbefore, hnew, hafter⟩

namespace RewriteSteps

variable {rewriter : Rewriter} {paths others : List Path} {tree middle last : FileTree}

theorem append (hfirst : RewriteSteps rewriter paths tree middle)
    (hlast : RewriteSteps rewriter others middle last) :
    RewriteSteps rewriter (paths ++ others) tree last := by
  induction hfirst with
  | nil => exact hlast
  | cons hfind hnew _ ih => exact .cons hfind hnew (ih hlast)

theorem bare_eq (hsteps : RewriteSteps rewriter paths tree last) : last.bare = tree.bare := by
  induction hsteps with
  | nil => rfl
  | cons hfind _ _ ih =>
    exact ih.trans (FileTree.bare_set_file (FileTree.entryAt_of_find hfind) _)

/-- Files are replaced at the places of the paths. -/
theorem written (hsteps : RewriteSteps rewriter paths tree last) {place : Path → Location}
    (hplaced : Placed tree place paths) : FileTree.Written (· ∈ paths.map place) tree last := by
  induction hsteps with
  | nil => exact .refl
  | @cons path rest tree last location text new hfind _ hrest ih =>
    have hfile := FileTree.entryAt_of_find hfind
    have hlater := ih (hplaced.tail.of_bare_eq (FileTree.bare_set_file hfile _))
    obtain rfl := hplaced path List.mem_cons_self location _ hfind
    have hfirst : FileTree.Written (· ∈ (path :: rest).map place) tree
        (tree.set (place path) (.file new.toUTF8)) :=
      FileTree.Written.refl.put List.mem_cons_self (.file hfile)
    exact hfirst.trans (hlater.mono fun _ hmem => List.mem_cons_of_mem _ hmem)

/-- Every file is rewritten once if the places of the paths are different. -/
theorem rewritten (hsteps : RewriteSteps rewriter paths tree last) {place : Path → Location}
    (hplaced : Placed tree place paths) (hnodup : (paths.map place).Nodup) {location : Location}
    (hlocation : location ∈ paths.map place) :
    RewrittenAt rewriter tree last location := by
  induction hsteps with
  | nil => contradiction
  | @cons path rest tree last found text new hfind hnew hrest ih =>
    have hfile := FileTree.entryAt_of_find hfind
    have hlater : Placed (tree.set found (.file new.toUTF8)) place rest :=
      hplaced.tail.of_bare_eq (FileTree.bare_set_file hfile _)
    obtain rfl := hplaced path List.mem_cons_self found _ hfind
    obtain ⟨hfresh, hrestNodup⟩ := List.nodup_cons.mp hnodup
    rcases List.mem_cons.mp hlocation with rfl | hmem
    · refine ⟨text, new, hfile, hnew, ?_⟩
      rw [(hrest.written hlater).entryAt_eq hfresh,
        FileTree.entryAt_set_of_ne_directory (by simp [hfile])]
    · obtain ⟨known, newer, hbefore, hnewer, hafter⟩ := ih hlater hrestNodup hmem
      have hne : location ≠ place path := by
        rintro rfl
        exact hfresh hmem
      rw [tree.entryAt_set_of_ne _ hne] at hbefore
      exact ⟨known, newer, hbefore, hnewer, hafter⟩

end RewriteSteps

theorem rewriteFile_eq_ok {rewriter : Rewriter} {file : Path} {value : Unit}
    (houtcome : outcome (rewriteFile rewriter file) workspace = (.ok value, left)) :
    RewriteSteps rewriter [file] workspace.tree left.tree ∧ left.catalog = workspace.catalog := by
  rw [rewriteFile] at houtcome
  obtain ⟨text, read, hread, hnext⟩ := outcome_bind_eq_ok houtcome
  obtain ⟨htext, rfl⟩ := readFile_eq_ok hread
  obtain ⟨location, content, hfind, hdecoded⟩ := FileTree.find_of_readText htext
  obtain rfl := FileTree.eq_toUTF8_of_fromUTF8? hdecoded
  cases hrun : rewriter.run text with
  | none => simp [hrun] at hnext
  | some progress =>
    simp only [hrun, outcome_bind, outcome_tellAll, outcome_writeFile] at hnext
    split at hnext
    · next written hwrite =>
      obtain ⟨-, rfl⟩ := Prod.mk.inj hnext
      have hset := FileTree.writeBytes_of_find hfind hwrite
      have hnew : rewriter.rewrite text = some (String.ofList progress.text) := by
        rw [Rewriter.rewrite, hrun, Option.map_some]
      rw [hset]
      exact ⟨.cons hfind hnew (.nil _), rfl⟩
    · simp at hnext

theorem rewriteFiles_eq_ok {rewriter : Rewriter} {folder : Path} {files : List SourceFile}
    {count total : Nat}
    (houtcome : outcome (rewriteFiles rewriter folder count files) workspace =
      (.ok total, left)) :
    RewriteSteps rewriter (files.map SourceFile.path) workspace.tree left.tree ∧
      left.catalog = workspace.catalog ∧ total = count + files.length := by
  induction files generalizing count workspace with
  | nil =>
    simp only [rewriteFiles, outcome_pure, Prod.mk.injEq, Except.ok.injEq] at houtcome
    obtain ⟨rfl, rfl⟩ := houtcome
    exact ⟨.nil _, rfl, rfl⟩
  | cons file rest ih =>
    rw [rewriteFiles] at houtcome
    obtain ⟨_, written, hwritten, hnext⟩ := outcome_bind_eq_ok houtcome
    obtain ⟨_, told, htold, hrest⟩ := outcome_bind_eq_ok hnext
    obtain ⟨hfirst, hfirstCatalog⟩ := rewriteFile_eq_ok (onFault_eq_ok hwritten)
    obtain ⟨hlast, hlastCatalog, htotal⟩ := ih hrest
    rw [outcome_tell, Prod.mk.injEq] at htold
    obtain ⟨-, rfl⟩ := htold
    refine ⟨hfirst.append hlast, hlastCatalog.trans hfirstCatalog, ?_⟩
    rw [htotal, List.length_cons]
    omega

theorem rewriteFolders_eq_ok {rewriter : Rewriter} {folders : List Path} {count total : Nat}
    (houtcome : outcome (rewriteFolders rewriter count folders) workspace = (.ok total, left)) :
    RewriteSteps rewriter ((folders.flatMap (filesIn workspace.tree)).map SourceFile.path)
        workspace.tree left.tree ∧
      left.catalog = workspace.catalog ∧
      total = count + (folders.flatMap (filesIn workspace.tree)).length := by
  induction folders generalizing count workspace with
  | nil =>
    simp only [rewriteFolders, outcome_pure, Prod.mk.injEq, Except.ok.injEq] at houtcome
    obtain ⟨rfl, rfl⟩ := houtcome
    exact ⟨.nil _, rfl, rfl⟩
  | cons folder rest ih =>
    rw [rewriteFolders] at houtcome
    obtain ⟨files, listed, hlisted, hnext⟩ := outcome_bind_eq_ok houtcome
    obtain ⟨hfiles, rfl⟩ := listFiles_eq_ok hlisted
    obtain ⟨middle, between, hrewritten, hrest⟩ := outcome_bind_eq_ok hnext
    obtain ⟨hfirst, hfirstCatalog, hfirstTotal⟩ := rewriteFiles_eq_ok hrewritten
    obtain ⟨hlast, hlastCatalog, hlastTotal⟩ := ih hrest
    have hsame : filesIn between.tree = filesIn listed.tree :=
      filesIn_eq_of_bare_eq hfirst.bare_eq
    rw [hsame] at hlast hlastTotal
    rw [List.flatMap_cons, filesIn_of_sourceFiles hfiles, List.map_append]
    refine ⟨hfirst.append hlast, hlastCatalog.trans hfirstCatalog, ?_⟩
    rw [hlastTotal, hfirstTotal, List.length_append, Nat.add_assoc]

/-- A rewriting that ends without a fault has gone through all source files. -/
theorem rewrite_eq_ok {count : Nat}
    (houtcome : outcome (rewrite settings root) workspace = (.ok count, left)) :
    RewriteSteps workspace.catalog.rewriter
        ((sources workspace.tree settings root).map SourceFile.path) workspace.tree left.tree ∧
      left.catalog = workspace.catalog ∧
      count = (sources workspace.tree settings root).length := by
  simp only [rewrite, outcome_bind, outcome_get] at houtcome
  split at houtcome
  · next folders listed hlisted =>
    obtain ⟨hfolders, htree, hcatalog⟩ := listFolders_eq_ok hlisted
    obtain ⟨hsteps, hleft, hcount⟩ := rewriteFolders_eq_ok houtcome
    rw [htree] at hsteps hcount
    rw [sources_of_featureFolders hfolders]
    exact ⟨hsteps, hleft.trans hcatalog, by rw [hcount, Nat.zero_add]⟩
  · simp at houtcome

/-! ## In a tree without links -/

/-- After a scan every source file is known to hold a text. -/
theorem exists_text_of_scan {base : Location} (hroot : IsRoot workspace.tree root base)
    {stats : ScanStats} (houtcome : outcome (scan settings rules root) workspace = (.ok stats, left))
    {location : Location} (hsource : IsSource workspace.tree settings root location) :
    ∃ text : String, workspace.tree.entryAt location = some (.file text.toUTF8) := by
  obtain ⟨file, hfile, rfl⟩ := List.mem_map.mp (hroot.mem_locations_iff.mpr hsource)
  obtain ⟨text, htext⟩ := (scan_eq_ok houtcome).readable file hfile
  exact ⟨text, ((hroot.plain.readText_eq_ok_iff (hroot.of_mem_sources hfile).1).mp htext).2⟩

/-- Rewriting source files of a locale one after another rewrites what stands at their places, and
nothing else. -/
theorem IsRoot.rewritten_of_steps {rewriter : Rewriter} {tree last : FileTree} {base : Location}
    (hroot : IsRoot tree root base) {files : List SourceFile}
    (hfiles : files.Sublist (sources tree settings root))
    (hsteps : RewriteSteps rewriter (files.map SourceFile.path) tree last) :
    FileTree.Written (· ∈ files.map fun file => file.path.location) tree last ∧
      ∀ location ∈ files.map fun file => file.path.location,
        RewrittenAt rewriter tree last location := by
  have hplaced : Placed tree Path.location (files.map SourceFile.path) := by
    intro path hpath location entry hfind
    obtain ⟨file, hfile, rfl⟩ := List.mem_map.mp hpath
    have hsource := hroot.of_mem_sources (hfiles.subset hfile)
    exact ((hroot.plain.find_eq_ok_iff hsource.1).mp hfind).1
  have hplaces : (files.map SourceFile.path).map Path.location =
      files.map fun file => file.path.location := by
    rw [List.map_map]
    rfl
  have hnodup : ((files.map SourceFile.path).map Path.location).Nodup := by
    rw [hplaces]
    exact (hroot.nodup_locations settings).sublist (hfiles.map _)
  rw [← hplaces]
  exact ⟨hsteps.written hplaced, fun location => hsteps.rewritten hplaced hnodup⟩

/-- A rewriting that ends without a fault has rewritten what stands at each place of a source file,
and nothing else. -/
theorem rewritten_of_isRoot {base : Location} (hroot : IsRoot workspace.tree root base)
    {count : Nat} (houtcome : outcome (rewrite settings root) workspace = (.ok count, left)) :
    FileTree.Written (IsSource workspace.tree settings root) workspace.tree left.tree ∧
      ∀ location, IsSource workspace.tree settings root location →
        RewrittenAt workspace.catalog.rewriter workspace.tree left.tree location := by
  obtain ⟨hsteps, -, -⟩ := rewrite_eq_ok houtcome
  obtain ⟨hwritten, htexts⟩ := hroot.rewritten_of_steps (List.Sublist.refl _) hsteps
  refine ⟨hwritten.mono fun location => hroot.mem_locations_iff.mp, ?_⟩
  intro location hsource
  exact htexts location (hroot.mem_locations_iff.mpr hsource)

end Site

end SelectorMangling
