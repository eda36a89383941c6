import SelectorMangling.Proofs.Catalog.Numbering
import SelectorMangling.Proofs.Catalog.Store
import SelectorMangling.Proofs.FileTree.Plain
import SelectorMangling.Proofs.Site.Scan
import SelectorMangling.Site.Build

/-!
# What builds make of a catalog

A build scans, numbers the family of its stem and saves.  Along any sequence of these steps from the
empty catalog, over whatever files, every name has a code of its own.
-/

namespace SelectorMangling.Site

theorem outcome_elevate (stem : String) (workspace : Workspace) :
    ∃ events, outcome (elevate stem) workspace =
      (.ok ⟨⟩, { workspace with catalog := workspace.catalog.deriveElevation stem, events }) := by
  simp only [elevate, outcome_bind, outcome_get, Catalog.deriveElevation]
  cases workspace.catalog.deriveElevation? stem with
  | none => exact ⟨_, rfl⟩
  | some derived => exact ⟨_, rfl⟩

/-- A catalog that steps of builds make from the empty one, always with the same stem. -/
inductive Reachable (stem : String) : Catalog → Prop
  | empty : Reachable stem Catalog.empty
  /-- Scanning any file by any rules, whether that fails or not. -/
  | scanFile {workspace : Workspace} (rules : Rules) (file : SourceFile)
      (hbefore : Reachable stem workspace.catalog) :
      Reachable stem (outcome (scanFile rules file) workspace).2.catalog
  | derive {catalog : Catalog} (hbefore : Reachable stem catalog) :
      Reachable stem (catalog.deriveElevation stem)
  /-- Loading a saved catalog from a later tree that still has its file. -/
  | reload {catalog loaded : Catalog} {tree written later : FileTree} {path : Path}
      (hbefore : Reachable stem catalog) (hsave : catalog.save tree path = (written, .ok ()))
      (hfile : later.find path = written.find path)
      (hload : Catalog.load later path = .ok loaded) : Reachable stem loaded

namespace Reachable

variable {stem : String} {catalog : Catalog}

/-- A name that is spelled like the member of the counter never gets into a catalog. -/
theorem countKey_notMem_names (hreachable : Reachable stem catalog) :
    Catalog.countKey ∉ catalog.names := by
  induction hreachable with
  | empty => exact Catalog.notMem_names_empty _
  | @scanFile workspace rules file _ ih =>
    exact (grows_scanFile rules file workspace).countKey_notMem ih
  | derive _ ih => rwa [Catalog.names_deriveElevation]
  | reload _ hsave hfile hload ih =>
    rw [Catalog.load_congr hfile, Catalog.load_of_save ih hsave] at hload
    rwa [← Except.ok.inj hload]

theorem exists_numbered (hreachable : Reachable stem catalog) :
    ∃ bound, Catalog.Numbered stem bound catalog := by
  induction hreachable with
  | empty => exact ⟨0, Catalog.numbered_empty stem⟩
  | @scanFile workspace rules file _ ih =>
    obtain ⟨bound, hnumbered⟩ := ih
    exact ⟨bound, hnumbered.grows (grows_scanFile rules file workspace)⟩
  | derive _ ih =>
    obtain ⟨bound, hnumbered⟩ := ih
    exact ⟨_, hnumbered.deriveElevation⟩
  | reload hbefore hsave hfile hload ih =>
    rw [Catalog.load_congr hfile,
      Catalog.load_of_save hbefore.countKey_notMem_names hsave] at hload
    rwa [← Except.ok.inj hload]

/-- A workspace whose catalog is reachable. -/
def Holds (stem : String) (workspace : Workspace) : Prop := Reachable stem workspace.catalog

theorem ignoresEvents_holds (stem : String) : IgnoresEvents (Holds stem) :=
  fun _ _ hholds => hholds

/-- Scanning a locale leads from reachable catalogs to reachable ones. -/
theorem keeps_scan (stem : String) (settings : Settings) (rules : Rules) (root : Path) :
    Keeps (Holds stem) (scan settings rules root) := by
  apply Keeps.scan (ignoresEvents_holds stem)
  intro file workspace hholds
  exact hholds.scanFile rules file

theorem keeps_elevate (stem : String) : Keeps (Holds stem) (elevate stem) := by
  intro workspace hholds
  obtain ⟨events, houtcome⟩ := outcome_elevate stem workspace
  rw [houtcome]
  exact hholds.derive

theorem keeps_saveCatalog (stem : String) (path : Path) :
    Keeps (Holds stem) (saveCatalog path) := by
  intro workspace hholds
  rw [outcome_saveCatalog]
  exact hholds

/-- A whole build leads from reachable catalogs to reachable ones, also if it fails on the way. -/
theorem keeps_build (settings : Settings) (rules : Rules) (root : Path) :
    Keeps (Holds settings.elevationPrefix) (build settings rules root) := by
  have hevents := ignoresEvents_holds settings.elevationPrefix
  apply (Keeps.tell hevents _).bind_any
  intro _
  apply (keeps_scan settings.elevationPrefix settings rules root).bind_any
  intro stats
  apply (keeps_elevate settings.elevationPrefix).bind_any
  intro _
  apply (keeps_saveCatalog settings.elevationPrefix settings.cachePath).bind_any
  intro _
  have hget : Keeps (Holds settings.elevationPrefix) get := .get
  apply hget.bind_any
  intro later
  apply (Keeps.tell hevents _).bind_any
  intro _
  apply (Keeps.tell hevents _).bind_any
  intro _
  cases later.catalog.validate with
  | ok value => exact .pure stats
  | error cause => exact .throw _

end Reachable

/-- In every reachable catalog the counter is the number of names, different names have different
codes, members of the family included, and the catalog is accepted. -/
theorem consistent_of_reachable {stem : String} {catalog : Catalog}
    (hreachable : Reachable stem catalog) :
    catalog.size = catalog.count ∧
      (∀ left ∈ catalog.names, ∀ right ∈ catalog.names, left ≠ right →
        catalog.get? left ≠ catalog.get? right) ∧
      catalog.validate = .ok () := by
  obtain ⟨bound, hnumbered⟩ := hreachable.exists_numbered
  have ⟨hsize, hdiffer, hvalid⟩ := hnumbered.consistent
  refine ⟨hsize, ?_, hvalid⟩
  intro left hleft right hright
  exact hdiffer left hleft right hright trivial trivial

/-- What scanning a stylesheet with a member of a family before its stem makes of the empty
catalog. -/
def scannedFamily : Catalog :=
  (outcome
    (scanFile { stems := [], classNameIgnore := [], frameworkIgnore := [] }
      ⟨⟨"/a.css"⟩, "a.css", .style⟩)
    { tree :=
      { entries := [(["a.css"], .file ".mat-el2.mat-el".toUTF8)]
        locations_nodup := by decide } }).2.catalog

theorem entries_scannedFamily :
    scannedFamily.entries = [("mat-el2", "a0"), ("mat-el", "b1")] := by
  let tree : FileTree :=
    { entries := [(["a.css"], .file ".mat-el2.mat-el".toUTF8)], locations_nodup := by decide }
  have hplain : tree.IsPlain := by decide
  have hpath : Path.Denotes ⟨"/a.css"⟩ ["a.css"] := by decide
  have hread : tree.readText ⟨"/a.css"⟩ = .ok ".mat-el2.mat-el" :=
    (hplain.readText_eq_ok_iff hpath).mpr ⟨by decide, rfl⟩
  rw [scannedFamily, catalog_scanFile_of_readText hread]
  decide +kernel

theorem consistent_of_reachable_scannedFamily :
    (scannedFamily.deriveElevation "mat-el").entries = [("mat-el2", "b10"), ("mat-el", "b1")] ∧
      (scannedFamily.deriveElevation "mat-el").validate = .ok () := by
  have hbase : scannedFamily.get? "mat-el" = some "b1" := by
    rw [Catalog.get?, entries_scannedFamily]
    decide
  refine ⟨?_, (consistent_of_reachable (.derive (.scanFile _ _ .empty))).2.2⟩
  rw [Catalog.entries_deriveElevation hbase, entries_scannedFamily]
  decide

end SelectorMangling.Site
