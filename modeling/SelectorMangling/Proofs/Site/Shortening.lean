import SelectorMangling.Proofs.Catalog.CodeLength
import SelectorMangling.Proofs.Extraction.Length
import SelectorMangling.Proofs.Rewriting.Size
import SelectorMangling.Proofs.Site.Interruption
import SelectorMangling.Proofs.Site.Making

/-!
# Mangling makes no file longer

The code of a place is as long as the shortest candidate at most.  A numbered code may be longer, but
so is the elevation prefix that is usual, with which all members of its family begin.  So no code is
longer than its name, and no text that is rewritten becomes longer.
-/

namespace SelectorMangling

open Rewriting

namespace Site

/-- Settings with prefixes of framework selectors that are accepted, and with the elevation prefix
that is usual. -/
structure NumbersUsualFamily (settings : Settings) : Prop where
  ne_nil : settings.frameworkPrefixes ≠ []
  empty_notMem : "" ∉ settings.frameworkPrefixes
  elevationPrefix_eq : settings.elevationPrefix = ({} : Settings).elevationPrefix

theorem numbersUsualFamily_of_check {settings : Settings} (hcheck : settings.check = .ok ())
    (hstem : settings.elevationPrefix = ({} : Settings).elevationPrefix) :
    NumbersUsualFamily settings := by
  have haccepted : ¬(settings.frameworkPrefixes.any String.isEmpty ||
      settings.frameworkPrefixes.isEmpty) = true := by
    intro hrefused
    simp only [Settings.check, hrefused, if_true] at hcheck
    split at hcheck
    · contradiction
    · split at hcheck <;> contradiction
  simp only [Bool.or_eq_true, not_or, List.any_eq_true, List.isEmpty_iff] at haccepted
  exact ⟨haccepted.2, fun hmem => haccepted.1 ⟨"", hmem, rfl⟩, hstem⟩

namespace MadeBy

variable {catalog : Catalog}

theorem exists_numbered {stem : String}
    (hmade : MadeBy (fun settings => settings.elevationPrefix = stem) catalog) :
    ∃ bound, Catalog.Numbered stem bound catalog := by
  suffices hinvariant : (∃ bound, Catalog.Numbered stem bound catalog) ∧
      Catalog.countKey ∉ catalog.names from hinvariant.1
  apply hmade.invariant
  · exact ⟨0, Catalog.numbered_empty stem⟩
  · rintro _ _ _ _ _ _ ⟨bound, hnumbered⟩ hgrown
    exact ⟨bound, hnumbered.grows hgrown⟩
  · rintro settings earlier rfl ⟨bound, hnumbered⟩
    exact ⟨_, hnumbered.deriveElevation⟩

theorem length_name (hmade : MadeBy NumbersUsualFamily catalog) {name : String}
    (hname : name ∈ catalog.names) : Extraction.shortestCandidate ≤ name.length := by
  obtain ⟨settings, rules, husual, hrules, kind, content, hcandidate⟩ :=
    hmade.namesAreCandidates name hname
  have hsame := (Rules.exists_of_ofSettings hrules).2.2
  exact Rules.length_of_mem_candidates (hsame ▸ husual.ne_nil)
    (hsame ▸ husual.empty_notMem) hcandidate

/-- A code has no more characters than its name, and its characters have one byte each. -/
theorem shortens (hmade : MadeBy NumbersUsualFamily catalog) : catalog.Shortens := by
  intro name code hcode
  obtain ⟨bound, hnumbered⟩ :=
    (hmade.mono fun _ husual => husual.elevationPrefix_eq).exists_numbered
  have hlength : code.length ≤ name.length := by
    rcases hnumbered.length_code hcode with hplain | ⟨hmember, hnumbered⟩
    · calc
        code.length ≤ Code.longest := hplain
        _ = Extraction.shortestCandidate := rfl
        _ ≤ name.length := hmade.length_name (Catalog.mem_names_of_get? hcode)
    · calc
        code.length ≤ Code.longest + Code.longestNumber := hnumbered
        _ ≤ ({} : Settings).elevationPrefix.length := by decide
        _ ≤ name.length := Nat.le_of_lt (length_lt_of_isFamilyMember hmember)
  calc
    code.utf8ByteSize = code.length := by
      rw [← String.utf8Len_toList, utf8Len_eq_length (hmade.spelled.of_get? hcode).isWord,
        String.length_toList]
    _ ≤ name.length := hlength
    _ ≤ name.utf8ByteSize := length_le_utf8ByteSize name

theorem names_nonempty (hmade : MadeBy NumbersUsualFamily catalog) : "" ∉ catalog.names :=
  fun hmem => absurd (hmade.length_name hmem) (by decide)

end MadeBy

/-! ## Files -/

/-- Every file of a tree is there later, with no more bytes. -/
def NoLarger (tree later : FileTree) : Prop :=
  ∀ location content, tree.entryAt location = some (.file content) →
    ∃ newer, later.entryAt location = some (.file newer) ∧ newer.size ≤ content.size

theorem noLarger_refl (tree : FileTree) : NoLarger tree tree :=
  fun _ content hfile => ⟨content, hfile, Nat.le_refl _⟩

theorem NoLarger.trans {tree middle last : FileTree} (hfirst : NoLarger tree middle)
    (hlast : NoLarger middle last) : NoLarger tree last := by
  intro location content hfile
  obtain ⟨newer, hnewer, hle⟩ := hfirst location content hfile
  obtain ⟨newest, hnewest, hless⟩ := hlast location newer hnewer
  exact ⟨newest, hnewest, Nat.le_trans hless hle⟩

theorem noLarger_set {tree : FileTree} {location : Location} {old content : ByteArray}
    (hold : tree.entryAt location = some (.file old)) (hsize : content.size ≤ old.size) :
    NoLarger tree (tree.set location (.file content)) := by
  intro other known hknown
  by_cases heq : other = location
  · subst heq
    rw [hold, Option.some.injEq, Entry.file.injEq] at hknown
    refine ⟨content, FileTree.entryAt_set_of_ne_directory (by simp [hold]) _, ?_⟩
    rwa [← hknown]
  · exact ⟨known, by rw [tree.entryAt_set_of_ne _ heq, hknown], Nat.le_refl _⟩

theorem RewriteSteps.noLarger {rewriter : Rewriter} {paths : List Path} {tree last : FileTree}
    (hsteps : RewriteSteps rewriter paths tree last)
    (hshorter : ∀ text new, rewriter.rewrite text = some new →
      new.utf8ByteSize ≤ text.utf8ByteSize) :
    NoLarger tree last := by
  induction hsteps with
  | nil => exact noLarger_refl _
  | cons hfind hnew _ ih =>
    exact (noLarger_set (FileTree.entryAt_of_find hfind) (hshorter _ _ hnew)).trans ih

/-- Files have been rewritten one after another since an earlier tree. -/
def RewrittenSince (rewriter : Rewriter) (tree : FileTree) (workspace : Workspace) : Prop :=
  ∃ paths, RewriteSteps rewriter paths tree workspace.tree

theorem keeps_rewrittenSince (rewriter : Rewriter) (tree : FileTree) (path : Path) :
    Keeps (RewrittenSince rewriter tree) (rewriteFile rewriter path) := by
  rintro workspace ⟨paths, hsteps⟩
  cases houtcome : outcome (rewriteFile rewriter path) workspace with
  | mk result left =>
    cases result with
    | ok value => exact ⟨_, hsteps.append (rewriteFile_eq_ok houtcome).1⟩
    | error fault =>
      have hsame := (rewriteFile_eq_error houtcome).2
      exact ⟨paths, hsame ▸ hsteps⟩

/-- Whatever a rewriting comes to, it has rewritten files one after another. -/
theorem rewrittenSince_rewrite (settings : Settings) (root : Path) (workspace : Workspace) :
    RewrittenSince workspace.catalog.rewriter workspace.tree
      (outcome (rewrite settings root) workspace).2 := by
  generalize hrewriter : workspace.catalog.rewriter = rewriter
  have hevents : IgnoresEvents (RewrittenSince rewriter workspace.tree) := fun _ _ hsince => hsince
  have hfolders : ∀ folders count,
      Keeps (RewrittenSince rewriter workspace.tree) (rewriteFolders rewriter count folders) := by
    intro folders
    induction folders with
    | nil => exact fun count => .pure count
    | cons folder rest ih =>
      intro count
      rw [rewriteFolders]
      refine (Keeps.listFiles folder).bind_any fun files => ?_
      apply (keeps_rewriteFiles hevents
        (fun file _ => keeps_rewrittenSince rewriter _ file.path) folder count).bind_any
      exact ih
  rw [rewrite, outcome_bind, outcome_get]
  dsimp only
  rw [hrewriter]
  apply (Keeps.listFolders hevents settings root).bind_any fun folders => hfolders folders 0
  exact ⟨[], .nil _⟩

/-- Builds with the usual elevation prefix give no name a code with more bytes.  So no text becomes
longer when it is rewritten, and neither does a file of the output. -/
theorem rewriting_lengthens_nothing {catalog : Catalog} (hmade : MadeBy NumbersUsualFamily catalog) :
    (∀ name code, catalog.get? name = some code → code.utf8ByteSize ≤ name.utf8ByteSize) ∧
      (∀ text, ∃ new, catalog.rewrite text = some new ∧
        new.utf8ByteSize ≤ text.utf8ByteSize) ∧
      ∀ settings root workspace, workspace.catalog = catalog →
        NoLarger workspace.tree (outcome (rewrite settings root) workspace).2.tree := by
  have hshorter := exists_rewrite_utf8ByteSize_le hmade.names_nonempty hmade.shortens
  refine ⟨hmade.shortens, hshorter, ?_⟩
  rintro settings root workspace rfl
  obtain ⟨paths, hsteps⟩ := rewrittenSince_rewrite settings root workspace
  apply hsteps.noLarger
  intro text new hnew
  obtain ⟨known, hknown, hle⟩ := hshorter text
  obtain rfl := Option.some.inj (hnew.symm.trans hknown)
  exact hle

/-- Two names of the usual family, the first of them the stem. -/
def elevationNames : Catalog :=
  (Catalog.empty.grow ["mat-elevation-z", "mat-elevation-z2"]).catalog

theorem numbersUsualFamily_default : NumbersUsualFamily {} := by
  have hcheck : ({} : Settings).check = .ok () := by decide +kernel
  exact numbersUsualFamily_of_check hcheck rfl

theorem madeBy_elevationNames :
    MadeBy NumbersUsualFamily (elevationNames.deriveElevation "mat-elevation-z") := by
  have hmade : MadeBy (· = {}) (elevationNames.deriveElevation ({} : Settings).elevationPrefix) :=
    madeBy_of_style ".mat-elevation-z .mat-elevation-z2" ["mat-elevation-z", "mat-elevation-z2"]
      (by decide +kernel) (by decide +kernel)
  have hstem : ({} : Settings).elevationPrefix = "mat-elevation-z" := rfl
  rw [hstem] at hmade
  exact hmade.mono fun _ hsettings => hsettings ▸ numbersUsualFamily_default

theorem rewriting_lengthens_nothing_elevationNames :
    MadeBy NumbersUsualFamily (elevationNames.deriveElevation "mat-elevation-z") ∧
      (elevationNames.deriveElevation "mat-elevation-z").get? "mat-elevation-z2" = some "a00" ∧
      "a00".utf8ByteSize ≤ "mat-elevation-z2".utf8ByteSize := by
  have hcode : (elevationNames.deriveElevation "mat-elevation-z").get? "mat-elevation-z2" =
    some "a00" := by decide +kernel
  have hshorter := (rewriting_lengthens_nothing madeBy_elevationNames).1 _ _ hcode
  exact ⟨madeBy_elevationNames, hcode, hshorter⟩

end Site

end SelectorMangling
