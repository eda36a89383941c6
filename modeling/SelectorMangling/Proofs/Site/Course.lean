import SelectorMangling.Proofs.Site.Traversal

/-!
# What a scan comes across

A scan comes across the texts of the source files, one after another, unless something cannot be
listed or read.  What it comes across is told by the tree alone, whatever is done with the texts.
-/

namespace SelectorMangling.Site

variable {α : Type} {tree : FileTree} {settings : Settings} {root : Path}

/-! ## Texts of source files -/

def readSource (tree : FileTree) (file : SourceFile) : Except FileFault (SourceKind × String) :=
  (tree.readText file.path).map fun text => (file.kind, text)

/-- The files can be read, and these are their texts. -/
def ReadAs (tree : FileTree) (files : List SourceFile) (contents : List (SourceKind × String)) :
    Prop :=
  files.map (readSource tree) = contents.map .ok

theorem readSource_eq_ok_iff {file : SourceFile} {content : SourceKind × String} :
    readSource tree file = .ok content ↔
      file.kind = content.1 ∧ tree.readText file.path = .ok content.2 := by
  rw [readSource]
  cases tree.readText file.path with
  | error fault => simp [Except.map]
  | ok text => simp [Except.map, Prod.ext_iff]

theorem readSource_of_find {path : Path} {name : String} {kind : SourceKind}
    {location : Location} {text : String}
    (hfind : tree.find path = .ok (location, .file text.toUTF8)) :
    readSource tree ⟨path, name, kind⟩ = .ok (kind, text) :=
  readSource_eq_ok_iff.mpr
    ⟨rfl, FileTree.readText_of_find hfind (FileTree.fromUTF8?_toUTF8 text)⟩

theorem readSource_eq_error {file : SourceFile} {cause : FileFault}
    (hread : readSource tree file = .error cause) : tree.readText file.path = .error cause := by
  rw [readSource] at hread
  cases htext : tree.readText file.path with
  | error found => simpa [htext, Except.map] using hread
  | ok text => simp [htext, Except.map] at hread

namespace ReadAs

variable {files others : List SourceFile} {contents more : List (SourceKind × String)}

theorem append (hfirst : ReadAs tree files contents) (hlast : ReadAs tree others more) :
    ReadAs tree (files ++ others) (contents ++ more) := by
  rw [ReadAs, List.map_append, List.map_append, hfirst, hlast]

theorem unique (hcontents : ReadAs tree files contents) (hmore : ReadAs tree files more) :
    contents = more :=
  List.map_injective_iff.mpr (fun _ _ => Except.ok.inj) (hcontents.symm.trans hmore)

theorem length_eq (hreads : ReadAs tree files contents) : files.length = contents.length := by
  simpa using congrArg List.length hreads

/-- The texts of the first files come first. -/
theorem prefix_of_prefix (hothers : ReadAs tree others more) (hfront : others <+: files)
    (hfiles : ReadAs tree files contents) : more <+: contents := by
  obtain ⟨rest, rfl⟩ := hfront
  rw [ReadAs, List.map_append, hothers, eq_comm, List.map_eq_append_iff] at hfiles
  obtain ⟨front, behind, rfl, hsame, -⟩ := hfiles
  rw [List.map_injective_iff.mpr (fun _ _ => Except.ok.inj) hsame]
  exact List.prefix_append _ _

theorem exists_content (hreads : ReadAs tree files contents) {file : SourceFile}
    (hfile : file ∈ files) : ∃ content ∈ contents, readSource tree file = .ok content := by
  have hmem : readSource tree file ∈ contents.map .ok := hreads ▸ List.mem_map_of_mem hfile
  obtain ⟨content, hcontent, hread⟩ := List.mem_map.mp hmem
  exact ⟨content, hcontent, hread.symm⟩

theorem exists_file (hreads : ReadAs tree files contents) {content : SourceKind × String}
    (hcontent : content ∈ contents) : ∃ file ∈ files, readSource tree file = .ok content := by
  have hmem : .ok content ∈ files.map (readSource tree) := hreads ▸ List.mem_map_of_mem hcontent
  exact List.mem_map.mp hmem

end ReadAs

/-- What of a locale cannot be listed or read, and the fault that tells about it. -/
inductive Blocked (tree : FileTree) (settings : Settings) (root : Path) : Fault → Prop
  | walk {cause : FileFault} (hfolders : featureFolders tree settings root = .error cause) :
      Blocked tree settings root (.walk root cause)
  | list {folders : List Path} {folder : Path} {cause : FileFault}
      (hfolders : featureFolders tree settings root = .ok folders) (hfolder : folder ∈ folders)
      (hfiles : sourceFiles tree folder = .error cause) :
      Blocked tree settings root (.list folder cause)
  | read {file : SourceFile} {cause : FileFault} (hfile : file ∈ sources tree settings root)
      (hread : tree.readText file.path = .error cause) :
      Blocked tree settings root (.read file.path cause)

/-- The source files of a locale can be listed and read, and these are their texts in order. -/
structure Provides (tree : FileTree) (settings : Settings) (root : Path)
    (contents : List (SourceKind × String)) : Prop where
  listed : ∃ folders, featureFolders tree settings root = .ok folders ∧
    ∀ folder ∈ folders, ∃ files, sourceFiles tree folder = .ok files
  reads : ReadAs tree (sources tree settings root) contents

/-- A locale whose only feature folder can be listed and read. -/
theorem provides_of_single {folder : Path} {files : List SourceFile}
    {contents : List (SourceKind × String)}
    (hfolder : featureFolders tree settings root = .ok [folder])
    (hfiles : sourceFiles tree folder = .ok files) (hreads : ReadAs tree files contents) :
    Provides tree settings root contents where
  listed := ⟨_, hfolder, List.forall_mem_singleton.mpr ⟨_, hfiles⟩⟩
  reads := by
    rwa [sources_of_featureFolders hfolder, List.flatMap_singleton, filesIn_of_sourceFiles hfiles]

theorem Provides.not_blocked {contents : List (SourceKind × String)}
    (hprovides : Provides tree settings root contents) {fault : Fault} :
    ¬Blocked tree settings root fault := by
  obtain ⟨folders, hlisted, hall⟩ := hprovides.listed
  intro hblocked
  cases hblocked with
  | walk hfolders => simp [hlisted] at hfolders
  | list hfolders hfolder hfiles =>
    rw [hlisted, Except.ok.injEq] at hfolders
    obtain ⟨files, hfound⟩ := hall _ (hfolders ▸ hfolder)
    simp [hfiles] at hfound
  | read hfile hread =>
    obtain ⟨content, -, hcontent⟩ := hprovides.reads.exists_content hfile
    have htext := (readSource_eq_ok_iff.mp hcontent).2
    simp [hread] at htext

/-! ## In order -/

/-- What reading a source file comes to in a scan. -/
def readOutcome (tree : FileTree) (file : SourceFile) : Except Fault (SourceKind × String) :=
  (readSource tree file).mapError (.read file.path)

/-- What a scan comes across in a folder, as far as it gets: the texts of its source files, or the
fault that they cannot be listed. -/
def folderCourse (tree : FileTree) (folder : Path) : List (Except Fault (SourceKind × String)) :=
  match sourceFiles tree folder with
  | .ok files => files.map (readOutcome tree)
  | .error cause => [.error (.list folder cause)]

/-- What a scan comes across in a locale, in order, if nothing stops it: the texts of the source
files, and the faults that it would stop at. -/
def course (tree : FileTree) (settings : Settings) (root : Path) :
    List (Except Fault (SourceKind × String)) :=
  match featureFolders tree settings root with
  | .ok folders => folders.flatMap (folderCourse tree)
  | .error cause => [.error (.walk root cause)]

/-- The texts that a scan comes across are those of some files at the front, and of all of them if
nothing is in its way. -/
theorem exists_front_of_files (tree : FileTree) (files : List SourceFile) :
    ∃ front, front <+: files ∧ ReadAs tree front (untilFault (files.map (readOutcome tree))) ∧
      (firstFault (files.map (readOutcome tree)) = none → front = files) := by
  induction files with
  | nil => exact ⟨[], List.prefix_refl _, rfl, fun _ => rfl⟩
  | cons file rest ih =>
    rw [List.map_cons, readOutcome]
    cases hread : readSource tree file with
    | error cause => exact ⟨[], List.nil_prefix, rfl, by simp [firstFault, Except.mapError]⟩
    | ok content =>
      obtain ⟨front, hfront, hreads, hall⟩ := ih
      refine ⟨file :: front, (List.prefix_cons_inj file).mpr hfront, ?_, ?_⟩
      · rw [ReadAs, List.map_cons, hread, hreads]
        rfl
      · intro hnone
        rw [hall hnone]

theorem exists_front_of_folders (tree : FileTree) (folders : List Path) :
    ∃ front, front <+: folders.flatMap (filesIn tree) ∧
      ReadAs tree front (untilFault (folders.flatMap (folderCourse tree))) ∧
      (firstFault (folders.flatMap (folderCourse tree)) = none →
        front = folders.flatMap (filesIn tree)) := by
  induction folders with
  | nil => exact ⟨[], List.prefix_refl _, rfl, fun _ => rfl⟩
  | cons folder rest ih =>
    rw [List.flatMap_cons, List.flatMap_cons, folderCourse, firstFault_append]
    cases hfiles : sourceFiles tree folder with
    | error cause => exact ⟨[], List.nil_prefix, rfl, by simp [firstFault]⟩
    | ok files =>
      rw [filesIn_of_sourceFiles hfiles]
      obtain ⟨first, hfirst, hreadsFirst, hallFirst⟩ := exists_front_of_files tree files
      cases hfault : firstFault (files.map (readOutcome tree)) with
      | some fault =>
        simp only [untilFault_append_of_some hfault]
        exact ⟨first, hfirst.trans (List.prefix_append _ _), hreadsFirst, by simp⟩
      | none =>
        obtain rfl := hallFirst hfault
        obtain ⟨front, hfront, hreads, hall⟩ := ih
        simp only [untilFault_append_of_none hfault]
        refine ⟨first ++ front, (List.prefix_append_right_inj first).mpr hfront,
          hreadsFirst.append hreads, ?_⟩
        intro hnone
        rw [hall hnone]

theorem exists_front_of_course (tree : FileTree) (settings : Settings) (root : Path) :
    ∃ front, front <+: sources tree settings root ∧
      ReadAs tree front (untilFault (course tree settings root)) ∧
      (firstFault (course tree settings root) = none → front = sources tree settings root) := by
  rw [course, sources]
  cases featureFolders tree settings root with
  | error cause => exact ⟨[], List.nil_prefix, rfl, by simp [firstFault]⟩
  | ok folders => exact exists_front_of_folders tree folders

/-- What a scan would stop at cannot be listed or read. -/
theorem blocked_of_mem_course {fault : Fault} (hmem : .error fault ∈ course tree settings root) :
    Blocked tree settings root fault := by
  unfold course at hmem
  split at hmem
  · next folders hfolders =>
    obtain ⟨folder, hfolder, hmem⟩ := List.mem_flatMap.mp hmem
    unfold folderCourse at hmem
    split at hmem
    · next files hfiles =>
      obtain ⟨file, hfile, hread⟩ := List.mem_map.mp hmem
      obtain ⟨cause, hcause, rfl⟩ := exists_of_mapError_eq_error hread
      have hsource : file ∈ sources tree settings root := by
        rw [sources_of_featureFolders hfolders]
        exact List.mem_flatMap.mpr ⟨folder, hfolder, by rwa [filesIn_of_sourceFiles hfiles]⟩
      exact .read hsource (readSource_eq_error hcause)
    · next cause hfiles =>
      cases List.mem_singleton.mp hmem
      exact .list hfolders hfolder hfiles
  · next cause hfolders =>
    cases List.mem_singleton.mp hmem
    exact .walk hfolders

/-- Nothing is in the way of a scan if and only if all source files can be listed and read. -/
theorem provides_iff_firstFault :
    Provides tree settings root (untilFault (course tree settings root)) ↔
      firstFault (course tree settings root) = none := by
  constructor
  · intro hprovides
    cases hfault : firstFault (course tree settings root) with
    | none => rfl
    | some fault =>
      exact absurd (blocked_of_mem_course (mem_of_firstFault hfault)) hprovides.not_blocked
  · intro hnone
    obtain ⟨front, -, hreads, hall⟩ := exists_front_of_course tree settings root
    rw [hall hnone] at hreads
    refine ⟨?_, hreads⟩
    have hclear : ∀ fault, .error fault ∉ course tree settings root := by
      intro fault hmem
      rw [eq_map_ok_of_firstFault hnone] at hmem
      obtain ⟨_, _, heq⟩ := List.mem_map.mp hmem
      contradiction
    unfold course at hclear
    split at hclear
    · next folders hfolders =>
      refine ⟨folders, hfolders, fun folder hfolder => ?_⟩
      cases hfiles : sourceFiles tree folder with
      | ok files => exact ⟨files, rfl⟩
      | error cause =>
        refine absurd (List.mem_flatMap.mpr ⟨folder, hfolder, ?_⟩) (hclear (.list folder cause))
        rw [folderCourse, hfiles]
        exact List.mem_singleton_self _
    · next cause _ => exact absurd (List.mem_singleton_self _) (hclear (.walk root cause))

end SelectorMangling.Site
