import SelectorMangling.Proofs.FileTree.Links
import SelectorMangling.Proofs.FileTree.Plain
import SelectorMangling.Proofs.Site.Rewrite

/-!
# Whether the directory of a locale is visited itself

A directory is accepted as that of a locale if links lead to it too.  A walk that begins at a link
goes through what the link leads to, but it passes over the link itself.  So the directory of a locale
with an index file is among the feature folders unless its path ends in a link.
-/

namespace SelectorMangling

/-! ## Paths below a directory -/

theorem Path.length_lt_child {name : String} (hname : IsEntryName name) (base : Path) :
    base.text.length < (base.child name).text.length := by
  have hpos : 0 < name.length := by
    rw [← String.length_toList, List.length_pos_iff, ne_eq, String.toList_eq_nil_iff]
    exact hname.ne_empty
  rw [child, join, if_neg (by simp [not_isAbsolute_of_isEntryName hname])]
  split
  · simpa only [String.length_append, Nat.lt_add_right_iff_pos]
  · simp only [String.length_append]
    omega

namespace Site

variable {tree : FileTree} {settings : Settings} {root : Path}

theorem length_le_below {names : List String} (hnames : ∀ name ∈ names, IsEntryName name)
    (root : Path) : root.text.length ≤ (below root names).text.length := by
  induction names generalizing root with
  | nil => exact Nat.le_refl _
  | cons name rest ih =>
    obtain ⟨hname, hrest⟩ := List.forall_mem_cons.mp hnames
    exact Nat.le_trans (Nat.le_of_lt (Path.length_lt_child hname root)) (ih hrest _)

/-- No path below a directory is that of the directory itself. -/
theorem below_ne {names : List String} (hnames : ∀ name ∈ names, IsEntryName name)
    (hbelow : names ≠ []) (root : Path) : below root names ≠ root := by
  intro heq
  cases names with
  | nil => contradiction
  | cons name rest =>
    obtain ⟨hname, hrest⟩ := List.forall_mem_cons.mp hnames
    have hlonger : root.text.length < (below root (name :: rest)).text.length :=
      Nat.lt_of_lt_of_le (Path.length_lt_child hname root) (length_le_below hrest _)
    rw [heq] at hlonger
    exact Nat.lt_irrefl _ hlonger

/-- Folders that a scan of a locale and a rewriting of it go through. -/
structure Visits (settings : Settings) (root : Path) (workspace : Workspace)
    (folders : List Path) : Prop where
  scan_eq : ∀ rules, ∃ events, outcome (scan settings rules root) workspace =
    outcome (scanFolders rules {} folders) { workspace with events }
  rewrite_eq : ∃ events, outcome (rewrite settings root) workspace =
    outcome (rewriteFolders workspace.catalog.rewriter 0 folders) { workspace with events }

theorem visits_of_featureFolders {workspace : Workspace} {folders : List Path}
    (hfolders : featureFolders workspace.tree settings root = .ok folders) :
    Visits settings root workspace folders := by
  obtain ⟨events, hlisted⟩ := outcome_listFolders settings root workspace
  rw [hfolders] at hlisted
  constructor
  · intro rules
    exact ⟨events, by rw [scan, outcome_bind, hlisted]; rfl⟩
  · exact ⟨events, by simp only [rewrite, outcome_bind, outcome_get, hlisted]; rfl⟩

theorem featureFolders_of_walk {visited : List (List String)}
    (hwalk : tree.walk (isSearched settings) root = .ok visited) :
    featureFolders tree settings root =
      .ok ((visited.map (below root)).filter (hasIndex tree settings)) := by
  rw [featureFolders, searchedDirectories, hwalk]
  rfl

/-- A locale with an index file and without directories in it is its only feature folder. -/
theorem featureFolders_of_childless {base : Location}
    (hroot : tree.findLink root = .ok (base, .directory))
    (hchildless : (tree.children base).all fun child => !child.2.isDirectory)
    (hindex : hasIndex tree settings root = true) :
    featureFolders tree settings root = .ok [root] := by
  rw [featureFolders_of_walk (FileTree.walk_of_directory hroot _),
    FileTree.directoriesBelow_of_childless hchildless]
  simp [below, hindex]

/-- A directory of a locale that is accepted can be searched.  If it has an index file, it is itself
one of the feature folders, unless its path ends in a link.  If it does, it is none of them. -/
theorem root_among_featureFolders (workspace : Workspace)
    (hdirectory : workspace.tree.isDirectory root = true)
    (hindex : hasIndex workspace.tree settings root = true) :
    ∃ folders, featureFolders workspace.tree settings root = .ok folders ∧
      Visits settings root workspace folders ∧
      (¬workspace.tree.IsLink root → root ∈ folders) ∧
      (workspace.tree.IsLink root → workspace.tree.HasEntryNames → root ∉ folders) := by
  obtain ⟨base, ⟨hlink, hwalk⟩ | ⟨hlink, hwalk⟩⟩ :=
    FileTree.exists_walk_of_isDirectory hdirectory (isSearched settings)
  · have hfolders := featureFolders_of_walk hwalk
    refine ⟨_, hfolders, visits_of_featureFolders hfolders, ?_, fun hother => absurd hother hlink⟩
    intro _
    rw [List.mem_filter]
    exact ⟨List.mem_cons_self, hindex⟩
  · have hfolders := featureFolders_of_walk hwalk
    refine ⟨_, hfolders, visits_of_featureFolders hfolders, fun hother => absurd hlink hother, ?_⟩
    intro _ hnamed hmem
    obtain ⟨names, hnames, heq⟩ := List.mem_map.mp (List.mem_filter.mp hmem).1
    obtain ⟨hbelow, hreached⟩ := FileTree.mem_directoriesBelow_iff.mp hnames
    exact below_ne (hnamed.of_isReached hreached) hbelow root heq

/-- A link to a locale with a main page and another page. -/
def linkedTree : FileTree where
  entries :=
    [(["r"], .directory), (["r", "i"], .file .empty), (["r", "p"], .directory),
     (["r", "p", "i"], .file .empty), (["d"], .directory), (["d", "e"], .link ⟨"../r"⟩)]
  locations_nodup := by
    change [["r"], ["r", "i"], ["r", "p"], ["r", "p", "i"], ["d"],
      ["d", "e"]].Nodup
    decide

/-- Settings with a short name of the index file. -/
def pageSettings : Settings := { indexFile := "i" }

theorem hasIndex_of_isFile {directory index : Path}
    (hjoin : directory.join ⟨settings.indexFile⟩ = index) (hfile : tree.isFile index = true) :
    hasIndex tree settings directory = true := by
  rwa [hasIndex, hjoin]

theorem root_among_featureFolders_linkedTree :
    linkedTree.isDirectory ⟨"/r"⟩ = true ∧ hasIndex linkedTree pageSettings ⟨"/r"⟩ = true ∧
      ∃ folders, featureFolders linkedTree pageSettings ⟨"/r"⟩ = .ok folders ∧ ⟨"/r"⟩ ∈ folders := by
  have hdirectory : linkedTree.isDirectory ⟨"/r"⟩ = true :=
    FileTree.isDirectory_of_find (FileTree.find_of_resolveWithin 4 rfl)
  have hfile : linkedTree.isFile ⟨"/r/i"⟩ = true :=
    FileTree.isFile_of_find (FileTree.find_of_resolveWithin 4 rfl)
  have hindex : hasIndex linkedTree pageSettings ⟨"/r"⟩ = true :=
    hasIndex_of_isFile (by decide +kernel) hfile
  have hlink : ¬linkedTree.IsLink ⟨"/r"⟩ := by
    have hfound : linkedTree.findLink ⟨"/r"⟩ = .ok (["r"], .directory) :=
      FileTree.findLink_of_resolve (FileTree.resolve_of_resolveWithin 4 rfl)
    rintro ⟨location, target, hother⟩
    simp [hfound] at hother
  obtain ⟨folders, hfolders, -, hvisited, -⟩ :=
    root_among_featureFolders { tree := linkedTree } hdirectory hindex
  exact ⟨hdirectory, hindex, folders, hfolders, hvisited hlink⟩

/-- The linked directory is accepted and has an index file, and yet only the other page is in a
feature folder. -/
theorem root_notMem_featureFolders_linkedTree :
    linkedTree.isDirectory ⟨"/d/e"⟩ = true ∧ hasIndex linkedTree pageSettings ⟨"/d/e"⟩ = true ∧
      ∃ folders, featureFolders linkedTree pageSettings ⟨"/d/e"⟩ = .ok folders ∧
        ⟨"/d/e/p"⟩ ∈ folders ∧ ⟨"/d/e"⟩ ∉ folders := by
  have hfind : linkedTree.find ⟨"/d/e"⟩ = .ok (["r"], .directory) :=
    FileTree.find_of_resolveWithin 8 rfl
  have hdirectory : linkedTree.isDirectory ⟨"/d/e"⟩ = true := FileTree.isDirectory_of_find hfind
  have hfile : linkedTree.isFile ⟨"/d/e/i"⟩ = true :=
    FileTree.isFile_of_find (FileTree.find_of_resolveWithin 8 rfl)
  have hother : linkedTree.isFile ⟨"/d/e/p/i"⟩ = true :=
    FileTree.isFile_of_find (FileTree.find_of_resolveWithin 8 rfl)
  have hlink : linkedTree.findLink ⟨"/d/e"⟩ = .ok (["d", "e"], .link ⟨"../r"⟩) :=
    FileTree.findLink_of_resolve (FileTree.resolve_of_resolveWithin 4 rfl)
  have hpages : linkedTree.directoriesBelow (isSearched pageSettings) ["r"] = [["p"]] := by
    rw [FileTree.directoriesBelow, List.mergeSort_of_pairwise (by decide +kernel)]
    decide +kernel
  have hbelow : below ⟨"/d/e"⟩ ["p"] = ⟨"/d/e/p"⟩ := by decide +kernel
  have hindex : hasIndex linkedTree pageSettings ⟨"/d/e/p"⟩ = true :=
    hasIndex_of_isFile (by decide +kernel) hother
  have hfolders : featureFolders linkedTree pageSettings ⟨"/d/e"⟩ = .ok [⟨"/d/e/p"⟩] := by
    rw [featureFolders_of_walk (FileTree.walk_of_link hlink hfind _), hpages]
    simp [hbelow, hindex]
  exact ⟨hdirectory, hasIndex_of_isFile (by decide +kernel) hfile, _, hfolders,
    List.mem_singleton_self _, by decide⟩

end Site

end SelectorMangling
