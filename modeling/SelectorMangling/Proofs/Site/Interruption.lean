import SelectorMangling.Proofs.Site.Order
import SelectorMangling.Proofs.Site.Traversal

/-!
# A rewriting that stops on the way

A rewriting writes each file before it goes on to the next one.  Where it fails it has rewritten the
files before the one that stops it, and has touched neither that file nor the later ones.
-/

namespace SelectorMangling.Site

open Rewriting

variable {settings : Settings} {root : Path} {workspace left : Workspace} {rewriter : Rewriter}
  {fault : Fault}

/-! ## In any tree -/

/-- How rewriting a file fails: it cannot be read, or rewriting its text comes to no result, or
nothing can be written to it. -/
inductive FileFails (rewriter : Rewriter) (tree : FileTree) (path : Path) : Fault → Prop
  | read {cause : FileFault} (hread : tree.readText path = .error cause) :
      FileFails rewriter tree path (.read path cause)
  | stuck {text : String} (hread : tree.readText path = .ok text)
      (hnone : rewriter.rewrite text = none) : FileFails rewriter tree path (.stuck path)
  | write {text new : String} {cause : FileFault} (hread : tree.readText path = .ok text)
      (hwrite : tree.writeText path new = .error cause) :
      FileFails rewriter tree path (.write path cause)

/-- A rewriting of files has gone through those before one that fails. -/
def Interrupted (rewriter : Rewriter) (files : List SourceFile) (tree last : FileTree)
    (fault : Fault) : Prop :=
  ∃ earlier file later, files = earlier ++ file :: later ∧
    RewriteSteps rewriter (earlier.map SourceFile.path) tree last ∧
    FileFails rewriter last file.path fault

namespace Interrupted

variable {files others : List SourceFile} {tree middle last : FileTree}

theorem append (hinterrupted : Interrupted rewriter files tree last fault)
    (others : List SourceFile) : Interrupted rewriter (files ++ others) tree last fault := by
  obtain ⟨earlier, file, later, rfl, hsteps, hfails⟩ := hinterrupted
  exact ⟨earlier, file, later ++ others, by simp, hsteps, hfails⟩

theorem after (hsteps : RewriteSteps rewriter (others.map SourceFile.path) tree middle)
    (hinterrupted : Interrupted rewriter files middle last fault) :
    Interrupted rewriter (others ++ files) tree last fault := by
  obtain ⟨earlier, file, later, rfl, hlater, hfails⟩ := hinterrupted
  refine ⟨others ++ earlier, file, later, by simp, ?_, hfails⟩
  rw [List.map_append]
  exact hsteps.append hlater

end Interrupted

theorem onFault_eq_error {α : Type} {work : Work α} {event : Event}
    (houtcome : outcome (onFault work event) workspace = (.error fault, left)) :
    ∃ between, outcome work workspace = (.error fault, between) ∧ left.tree = between.tree := by
  rw [outcome_onFault] at houtcome
  split at houtcome
  · simp at houtcome
  · next cause between hwork =>
    obtain ⟨hcause, rfl⟩ := Prod.mk.inj houtcome
    rw [Except.error.inj hcause] at hwork
    refine ⟨between, hwork, ?_⟩
    split
    · rfl
    · rfl

theorem rewriteFile_eq_error {file : Path}
    (houtcome : outcome (rewriteFile rewriter file) workspace = (.error fault, left)) :
    FileFails rewriter workspace.tree file fault ∧ left.tree = workspace.tree := by
  rw [rewriteFile] at houtcome
  rcases outcome_bind_eq_error houtcome with hread | ⟨text, read, hread, hnext⟩
  · rw [outcome_readFile] at hread
    obtain ⟨hresult, rfl⟩ := Prod.mk.inj hread
    obtain ⟨cause, hcause, rfl⟩ := exists_of_mapError_eq_error hresult
    exact ⟨.read hcause, rfl⟩
  · obtain ⟨htext, rfl⟩ := readFile_eq_ok hread
    cases hrun : rewriter.run text with
    | none =>
      simp only [hrun, outcome_throw] at hnext
      obtain ⟨hfault, rfl⟩ := Prod.mk.inj hnext
      have hnone : rewriter.rewrite text = none := by rw [Rewriter.rewrite, hrun, Option.map_none]
      rw [← Except.error.inj hfault]
      exact ⟨.stuck htext hnone, rfl⟩
    | some progress =>
      simp only [hrun, outcome_bind, outcome_tellAll, outcome_writeFile] at hnext
      split at hnext
      · simp at hnext
      · next cause hwrite =>
        obtain ⟨hcause, rfl⟩ := Prod.mk.inj hnext
        rw [← Except.error.inj hcause]
        exact ⟨.write htext hwrite, rfl⟩

theorem rewriteFiles_eq_error {folder : Path} {files : List SourceFile} {count : Nat}
    (houtcome : outcome (rewriteFiles rewriter folder count files) workspace =
      (.error fault, left)) :
    Interrupted rewriter files workspace.tree left.tree fault := by
  induction files generalizing count workspace with
  | nil => simp [rewriteFiles] at houtcome
  | cons file rest ih =>
    rw [rewriteFiles] at houtcome
    rcases outcome_bind_eq_error houtcome with hfirst | ⟨_, written, hwritten, hnext⟩
    · obtain ⟨between, hfile, hleft⟩ := onFault_eq_error hfirst
      obtain ⟨hfails, hbetween⟩ := rewriteFile_eq_error hfile
      rw [hleft, hbetween]
      exact ⟨[], file, rest, rfl, .nil _, hfails⟩
    · obtain ⟨hsteps, -⟩ := rewriteFile_eq_ok (onFault_eq_ok hwritten)
      rw [outcome_bind, outcome_tell] at hnext
      rw [← List.singleton_append]
      exact (ih hnext).after hsteps

/-- Where the folders can be listed, only a file can stop the rewriting. -/
theorem rewriteFolders_eq_error {folders : List Path} {count : Nat}
    (hlisted : ∀ folder ∈ folders, ∃ files, sourceFiles workspace.tree folder = .ok files)
    (houtcome : outcome (rewriteFolders rewriter count folders) workspace = (.error fault, left)) :
    Interrupted rewriter (folders.flatMap (filesIn workspace.tree)) workspace.tree left.tree
      fault := by
  induction folders generalizing count workspace with
  | nil => simp [rewriteFolders] at houtcome
  | cons folder rest ih =>
    obtain ⟨⟨files, hfiles⟩, hrestListed⟩ := List.forall_mem_cons.mp hlisted
    rw [rewriteFolders, outcome_bind, outcome_listFiles, hfiles] at houtcome
    rw [List.flatMap_cons, filesIn_of_sourceFiles hfiles]
    rcases outcome_bind_eq_error houtcome with hfirst | ⟨middle, between, hrewritten, hnext⟩
    · exact (rewriteFiles_eq_error hfirst).append _
    · obtain ⟨hsteps, -⟩ := rewriteFiles_eq_ok hrewritten
      have hbare := hsteps.bare_eq
      have hlater : ∀ folder ∈ rest, ∃ files, sourceFiles between.tree folder = .ok files := by
        intro other hother
        rw [← sourceFiles_bare, hbare, sourceFiles_bare]
        exact hrestListed other hother
      have hstops := ih hlater hnext
      rw [filesIn_eq_of_bare_eq hbare] at hstops
      exact hstops.after hsteps

/-! ## In a tree without links -/

variable {base : Location}

theorem IsRoot.interrupted (hroot : IsRoot workspace.tree root base)
    (houtcome : outcome (rewrite settings root) workspace = (.error fault, left)) :
    Interrupted workspace.catalog.rewriter (sources workspace.tree settings root) workspace.tree
      left.tree fault := by
  obtain ⟨events, hfolders⟩ := outcome_listFolders settings root workspace
  have hstart : IsRoot { workspace with events }.tree root base := hroot
  have hlisted := hstart.featureFolders_eq settings
  simp only [rewrite, outcome_bind, outcome_get, hfolders, hlisted, Except.mapError] at houtcome
  have hstops := rewriteFolders_eq_error
    (fun _ => hstart.exists_files_of_mem_featureFolders hlisted) houtcome
  rwa [← sources_of_featureFolders hlisted] at hstops

/-- What stops a rewriting at a file that stands at the end of its path: it holds no text, or
rewriting its text comes to no result. -/
theorem FileFails.of_file {tree : FileTree} {path : Path} {location : Location}
    {content : ByteArray} (hfails : FileFails rewriter tree path fault) (hplain : tree.IsPlain)
    (hpath : path.Denotes location) (hend : path.EndsInMove)
    (hfile : tree.entryAt location = some (.file content)) :
    fault = .read path .notText ∧ String.fromUTF8? content = none ∨
      fault = .stuck path ∧ ∃ text : String, content = text.toUTF8 ∧
        rewriter.rewrite text = none := by
  have hfind : tree.find path = .ok (location, .file content) :=
    (hplain.find_eq_ok_iff hpath).mpr ⟨rfl, hfile, .inl hend⟩
  cases hfails with
  | @read cause hread =>
    rw [FileTree.readText, hfind] at hread
    cases htext : String.fromUTF8? content with
    | none =>
      simp only [bind, Except.bind, htext, Except.error.injEq] at hread
      exact .inl ⟨by rw [hread], rfl⟩
    | some text =>
      simp only [bind, Except.bind, htext] at hread
      contradiction
  | @stuck text hread hnone =>
    obtain ⟨-, hfound⟩ := (hplain.readText_eq_ok_iff hpath).mp hread
    rw [hfile, Option.some.injEq, Entry.file.injEq] at hfound
    exact .inr ⟨rfl, text, hfound, hnone⟩
  | @write text new cause hread hwrite =>
    have hwritable : tree.writeText path new = .ok (tree.set location (.file new.toUTF8)) :=
      FileTree.writeBytes_eq_ok_iff.mpr ⟨hend.getLast?_ne, location, .inr ⟨content, hfind⟩, rfl⟩
    rw [hwritable] at hwrite
    contradiction

/-- Of the files at some locations, those before one of them are rewritten, and that one and those
after it are as they were. -/
structure HaltsAt (source : Location → Prop) (catalog : Catalog) (tree later : FileTree)
    (stop : Location) : Prop where
  isSource : source stop
  earlier : ∀ location, source location → ComesBefore location stop →
    RewrittenAt catalog.rewriter tree later location
  spared : ∀ location, source location → ¬ComesBefore location stop →
    later.entryAt location = tree.entryAt location

/-- Of the files at some locations, those before one that is no text are rewritten, and that one and
those after it are as they were. -/
structure StopsAt (source : Location → Prop) (catalog : Catalog) (tree later : FileTree)
    (stop : Location) : Prop extends HaltsAt source catalog tree later stop where
  noText : ∃ content, tree.entryAt stop = some (.file content) ∧ String.fromUTF8? content = none

/-- What is at a location stops a rewriting: it is no text, or rewriting it comes to no result. -/
inductive StopsWith (catalog : Catalog) (tree : FileTree) (path : Path) : Fault → Prop
  | notText {content : ByteArray} (hfile : tree.entryAt path.location = some (.file content))
      (hnoText : String.fromUTF8? content = none) : StopsWith catalog tree path (.read path .notText)
  | stuck {text : String} (hfile : tree.entryAt path.location = some (.file text.toUTF8))
      (hnone : catalog.rewrite text = none) : StopsWith catalog tree path (.stuck path)

/-- A rewriting fails only at a source file that is no text, or that cannot be rewritten. -/
theorem IsRoot.haltsAt (hroot : IsRoot workspace.tree root base)
    (houtcome : outcome (rewrite settings root) workspace = (.error fault, left)) :
    ∃ path : Path, path.Denotes path.location ∧
      StopsWith workspace.catalog workspace.tree path fault ∧
      HaltsAt (IsSource workspace.tree settings root) workspace.catalog workspace.tree left.tree
        path.location := by
  obtain ⟨earlier, file, later, hsplit, hsteps, hfails⟩ := hroot.interrupted houtcome
  have hearlier : earlier.Sublist (sources workspace.tree settings root) := by
    rw [hsplit]
    exact List.sublist_append_left _ _
  obtain ⟨hwritten, htexts⟩ := hroot.rewritten_of_steps hearlier hsteps
  have hspared : ∀ location, ¬ComesBefore location file.path.location →
      left.tree.entryAt location = workspace.tree.entryAt location := by
    intro location hnot
    apply hwritten.entryAt_eq
    rw [hroot.mem_earlier_iff hsplit]
    exact fun hfirst => hnot hfirst.2
  have hfile : file ∈ sources workspace.tree settings root := by
    rw [hsplit]
    exact List.mem_append_right _ List.mem_cons_self
  obtain ⟨hpath, hend, -, content, hcontent⟩ := hroot.of_mem_sources hfile
  have hstop : left.tree.entryAt file.path.location = some (.file content) := by
    rw [hspared _ fun hself => hself.asymm hself, hcontent]
  refine ⟨file.path, hpath, ?_, hroot.mem_locations_iff.mp (List.mem_map_of_mem hfile), ?_,
    fun location _ => hspared location⟩
  · rcases hfails.of_file (hwritten.isPlain hroot.plain) hpath hend hstop with
      ⟨rfl, hnoText⟩ | ⟨rfl, text, rfl, hnone⟩
    · exact .notText hcontent hnoText
    · exact .stuck hcontent hnone
  · intro location hsource hbefore
    exact htexts location ((hroot.mem_earlier_iff hsplit).mpr ⟨hsource, hbefore⟩)

end SelectorMangling.Site
