import SelectorMangling.Proofs.Site.History
import SelectorMangling.Proofs.Site.Stages

/-!
# Incremental builds

The source files of a locale may come in batches, with a build for each batch on the cache that the
build before it left.  In between the cache is numbered, saved and loaded again, at moments that one
build of everything never sees.  The cache that is left at last is the same.
-/

namespace SelectorMangling.Site

variable {settings : Settings} {rules : Rules}

/-- A locale for one build, with the texts of its source files in order. -/
structure Batch where
  tree : FileTree
  root : Path
  contents : List (SourceKind × String)

/-- A build that begins with the catalog of the cache. -/
def cachedBuild (settings : Settings) (rules : Rules) (root : Path) : Work ScanStats := do
  loadCatalog settings.cachePath
  build settings rules root

/-- A build fails where its scan does. -/
theorem outcome_build_of_scan {root : Path} {before left : Workspace} {fault : Fault}
    (hscan : outcome (scan settings rules root) (scanStart root before) = (.error fault, left)) :
    outcome (build settings rules root) before = (.error fault, left) := by
  rw [scanStart] at hscan
  simp only [build, outcome_bind, outcome_tell, hscan]

namespace Batch

/-- What the build of a batch comes to. -/
def built (settings : Settings) (rules : Rules) (batch : Batch) :
    Except Fault ScanStats × Workspace :=
  outcome (cachedBuild settings rules batch.root) { tree := batch.tree }

/-- The source files can be read, and a cache can be written. -/
structure Ready (settings : Settings) (batch : Batch) : Prop where
  provides : Provides batch.tree settings batch.root batch.contents
  savable : ∀ catalog : Catalog, ∃ written,
    catalog.save batch.tree settings.cachePath = (written, .ok ())

def Succeeds (settings : Settings) (rules : Rules) (batch : Batch) : Prop :=
  ∃ stats, (batch.built settings rules).1 = .ok stats

/-- The build fails because the codes run out. -/
def Exhausts (settings : Settings) (rules : Rules) (batch : Batch) : Prop :=
  ∃ cause, (batch.built settings rules).1 = .error (.exhausted cause)

/-- The build leaves these bytes in the cache. -/
def Leaves (settings : Settings) (rules : Rules) (batch : Batch) (bytes : ByteArray) : Prop :=
  ∃ location, (batch.built settings rules).2.tree.find settings.cachePath =
    .ok (location, .file bytes)

/-- The build succeeds and hands a catalog with settled codes on to the next one. -/
structure HandsOn (settings : Settings) (rules : Rules) (batch : Batch) (catalog : Catalog) :
    Prop where
  succeeds : batch.Succeeds settings rules
  settled : catalog.Settled settings.elevationPrefix
  countKey_notMem : Catalog.countKey ∉ catalog.names
  load : Catalog.load (batch.built settings rules).2.tree settings.cachePath = .ok catalog
  leaves : batch.Leaves settings rules catalog.render.toUTF8

variable {batch : Batch} {loaded : Catalog}

theorem built_of_load (rules : Rules)
    (hload : Catalog.load batch.tree settings.cachePath = .ok loaded) :
    batch.built settings rules =
      outcome (build settings rules batch.root) { tree := batch.tree, catalog := loaded } := by
  rw [built, cachedBuild, outcome_bind, outcome_loadCatalog, hload]

/-- As long as there are codes, a build adds the names of its batch and numbers the family. -/
theorem handsOn_of_room (hready : batch.Ready settings)
    (hload : Catalog.load batch.tree settings.cachePath = .ok loaded)
    (hsettled : loaded.Settled settings.elevationPrefix)
    (hfree : Catalog.countKey ∉ loaded.names)
    (hroom : (loaded.grow (rules.stream batch.contents)).exhausted = none) :
    batch.HandsOn settings rules
      ((loaded.grow (rules.stream batch.contents)).catalog.deriveElevation
        settings.elevationPrefix) := by
  obtain ⟨stats, scanned, hscan, htree, hcatalog⟩ := exists_scan_of_room hready.provides hroom
    (scanStart batch.root { tree := batch.tree, catalog := loaded }) rfl rfl
  have hgrows : Catalog.Grows (fun _ => True) loaded
      (loaded.grow (rules.stream batch.contents)).catalog :=
    Catalog.grows_grow loaded fun _ _ => trivial
  have hderived := hsettled.deriveElevation hgrows
  have hvalid := (Catalog.Numbered.consistent hderived).2.2
  obtain ⟨written, hsave⟩ := hready.savable
    ((loaded.grow (rules.stream batch.contents)).catalog.deriveElevation settings.elevationPrefix)
  rw [← hcatalog] at hsave hvalid ⊢
  rw [← htree] at hsave
  obtain ⟨left, hbuild, hleft, hleftCatalog⟩ :=
    exists_build_eq_ok { tree := batch.tree, catalog := loaded } hscan hsave hvalid
  have hbuilt := (built_of_load rules hload).trans hbuild
  obtain ⟨hloadLeft, hsettledLeft, hfreeLeft, -⟩ := load_of_build hsettled hfree hbuild
  obtain ⟨location, content, hfind, hdecoded⟩ :=
    FileTree.find_of_readText (Catalog.readText_of_save hsave).2
  obtain rfl := FileTree.eq_toUTF8_of_fromUTF8? hdecoded
  rw [← hleft] at hfind
  rw [← hleftCatalog] at hfind ⊢
  constructor
  case succeeds => exact ⟨stats, by rw [hbuilt]⟩
  case settled => exact hsettledLeft
  case countKey_notMem => exact hfreeLeft
  case load => rwa [hbuilt]
  case leaves => exact ⟨location, by rw [hbuilt]; exact hfind⟩

theorem exhausts_of_exhausted (hready : batch.Ready settings)
    (hload : Catalog.load batch.tree settings.cachePath = .ok loaded)
    (hexhausted : (loaded.grow (rules.stream batch.contents)).exhausted ≠ none) :
    batch.Exhausts settings rules := by
  obtain ⟨cause, -, left, hscan⟩ :=
    (scan_of_provides rules loaded hready.provides
      (scanStart batch.root { tree := batch.tree, catalog := loaded }) rfl rfl).resolve_left
        fun ⟨hroom, _⟩ => hexhausted hroom
  exact ⟨cause, by rw [built_of_load rules hload, outcome_build_of_scan hscan]⟩

/-- Whether the codes last for a batch is told by the names that there were before, and so are the
names that its build hands on. -/
theorem handsOn_or_exhausts (rules : Rules) {base : Catalog} (hready : batch.Ready settings)
    (hload : Catalog.load batch.tree settings.cachePath = .ok loaded)
    (hsettled : loaded.Settled settings.elevationPrefix)
    (hfree : Catalog.countKey ∉ loaded.names) (hsame : Catalog.SameNames loaded base) :
    ((base.grow (rules.stream batch.contents)).exhausted = none ∧
      ∃ catalog, batch.HandsOn settings rules catalog ∧
        Catalog.SameNames catalog (base.grow (rules.stream batch.contents)).catalog) ∨
    (base.grow (rules.stream batch.contents)).exhausted ≠ none ∧
      batch.Exhausts settings rules := by
  obtain ⟨hnames, hexhausted⟩ := hsame.grow (rules.stream batch.contents)
  rw [← hexhausted]
  by_cases hroom : (loaded.grow (rules.stream batch.contents)).exhausted = none
  · exact .inl ⟨hroom, _, handsOn_of_room hready hload hsettled hfree hroom,
      hnames.deriveElevation _⟩
  · exact .inr ⟨hroom, exhausts_of_exhausted hready hload hroom⟩

theorem not_exhausts_of_succeeds (hsucceeds : batch.Succeeds settings rules) :
    ¬batch.Exhausts settings rules := by
  rintro ⟨cause, hcause⟩
  obtain ⟨stats, hstats⟩ := hsucceeds
  rw [hstats] at hcause
  contradiction

end Batch

/-- Builds for batches of one locale, the latest batch first.  There is no cache before the first
build, and each later build finds the cache that the build before it left. -/
inductive Increments (settings : Settings) (rules : Rules) : List Batch → Prop
  | first {batch : Batch} (hready : batch.Ready settings)
      (hcache : batch.tree.exists? settings.cachePath = false) : Increments settings rules [batch]
  | next {batch last : Batch} {batches : List Batch}
      (hbatches : Increments settings rules (last :: batches)) (hready : batch.Ready settings)
      (hcache : Catalog.load batch.tree settings.cachePath =
        Catalog.load (last.built settings rules).2.tree settings.cachePath) :
      Increments settings rules (batch :: last :: batches)

/-- The texts of all batches in the order in which they are scanned. -/
def contentsOf (batches : List Batch) : List (SourceKind × String) :=
  batches.reverse.flatMap Batch.contents

theorem contentsOf_cons (batch : Batch) (batches : List Batch) :
    contentsOf (batch :: batches) = contentsOf batches ++ batch.contents := by
  simp [contentsOf]

/-- What the builds come to is told by growing the empty catalog by all texts at once: either the
codes last and the last build hands on the same names, or they run out in some build. -/
theorem Increments.handsOn_or_exhausts {last : Batch} {batches : List Batch}
    (hbatches : Increments settings rules (last :: batches)) :
    ((Catalog.empty.grow (rules.stream (contentsOf (last :: batches)))).exhausted = none ∧
      (∀ batch ∈ last :: batches, batch.Succeeds settings rules) ∧
      ∃ catalog, last.HandsOn settings rules catalog ∧ Catalog.SameNames catalog
        (Catalog.empty.grow (rules.stream (contentsOf (last :: batches)))).catalog) ∨
    (Catalog.empty.grow (rules.stream (contentsOf (last :: batches)))).exhausted ≠ none ∧
      ∃ batch ∈ last :: batches, batch.Exhausts settings rules := by
  generalize hall : last :: batches = all at hbatches
  induction hbatches generalizing last batches with
  | @first batch hready hcache =>
    obtain ⟨rfl, rfl⟩ := List.cons.inj hall
    have hcontents : contentsOf [last] = last.contents := by simp [contentsOf]
    rw [hcontents]
    rcases Batch.handsOn_or_exhausts rules hready (Catalog.load_of_not_exists hcache)
      (Catalog.settled_empty _) (Catalog.notMem_names_empty _) (.refl .empty) with
      ⟨hroom, catalog, hhandsOn, hsame⟩ | ⟨hexhausted, hexhausts⟩
    · exact .inl ⟨hroom, List.forall_mem_singleton.mpr hhandsOn.succeeds, catalog, hhandsOn, hsame⟩
    · exact .inr ⟨hexhausted, last, List.mem_singleton_self last, hexhausts⟩
  | @next batch earlier rest _ hready hcache ih =>
    obtain ⟨rfl, rfl⟩ := List.cons.inj hall
    rw [contentsOf_cons, rules.stream_append]
    rcases ih rfl with ⟨hroom, hsucceed, catalog, hhandsOn, hsame⟩ |
      ⟨hexhausted, found, hfound, hexhausts⟩
    · obtain ⟨hgrown, hlater⟩ := Catalog.grow_append hroom (rules.stream last.contents)
      rw [hgrown, hlater]
      rcases Batch.handsOn_or_exhausts rules hready (hcache.trans hhandsOn.load)
        hhandsOn.settled hhandsOn.countKey_notMem hsame with
        ⟨hlast, final, hfinal, hfinalSame⟩ | ⟨hlast, hexhausts⟩
      · exact .inl ⟨hlast, List.forall_mem_cons.mpr ⟨hfinal.succeeds, hsucceed⟩, final, hfinal,
          hfinalSame⟩
      · exact .inr ⟨hlast, last, List.mem_cons_self, hexhausts⟩
    · obtain ⟨cause, hcause⟩ := Option.ne_none_iff_exists'.mp hexhausted
      rw [Catalog.grow_append_of_exhausted hcause]
      exact .inr ⟨hexhausted, found, List.mem_cons_of_mem _ hfound, hexhausts⟩

/-- However the texts of a locale are cut into batches, the codes run out in some build exactly if
they run out in one build of everything, and if they do not, all builds succeed and the last one
leaves the same bytes in the cache as the one build. -/
theorem incremental_builds_equal_one_build {whole last : Batch} {batches : List Batch}
    (hwhole : whole.Ready settings) (hcache : whole.tree.exists? settings.cachePath = false)
    (hbatches : Increments settings rules (last :: batches))
    (hcontents : whole.contents = contentsOf (last :: batches)) :
    (whole.Exhausts settings rules ↔ ∃ batch ∈ last :: batches, batch.Exhausts settings rules) ∧
      (¬whole.Exhausts settings rules →
        whole.Succeeds settings rules ∧ (∀ batch ∈ last :: batches, batch.Succeeds settings rules) ∧
          ∃ bytes, whole.Leaves settings rules bytes ∧ last.Leaves settings rules bytes) := by
  have hone : Increments settings rules [whole] := .first hwhole hcache
  have hsame : contentsOf [whole] = contentsOf (last :: batches) := by
    rw [← hcontents]
    simp [contentsOf]
  have hwholeEnds := hone.handsOn_or_exhausts
  have hbatchesEnd := hbatches.handsOn_or_exhausts
  rw [hsame] at hwholeEnds
  rcases hwholeEnds with ⟨hroom, hwholeSucceeds, catalog, hhandsOn, hnames⟩ |
    ⟨hexhausted, found, hfound, hexhausts⟩
  · rcases hbatchesEnd with ⟨-, hsucceed, final, hfinal, hfinalNames⟩ | ⟨hexhausted, -⟩
    · have hnone := Batch.not_exhausts_of_succeeds hhandsOn.succeeds
      refine ⟨⟨fun hexhausts => absurd hexhausts hnone, ?_⟩, fun _ => ?_⟩
      · rintro ⟨batch, hmem, hexhausts⟩
        exact absurd hexhausts (Batch.not_exhausts_of_succeeds (hsucceed batch hmem))
      · obtain rfl : catalog = final :=
          hhandsOn.settled.eq_of_sameNames hfinal.settled (hnames.trans hfinalNames.symm)
        exact ⟨hhandsOn.succeeds, hsucceed, _, hhandsOn.leaves, hfinal.leaves⟩
    · exact absurd hroom hexhausted
  · obtain rfl := List.mem_singleton.mp hfound
    rcases hbatchesEnd with ⟨hroom, -⟩ | ⟨-, hsome⟩
    · exact absurd hroom hexhausted
    · exact ⟨⟨fun _ => hsome, fun _ => hexhausts⟩, fun hnone => absurd hexhausts hnone⟩

/-- A locale with two stylesheets, of which the second one repeats a name of the first. -/
def stagedTree : FileTree where
  entries :=
    [(["d"], .directory), (["d", "e"], .directory), (["d", "e", "i"], .file .empty),
     (["d", "e", "a.css"], .file ".m-el2".toUTF8),
     (["d", "e", "b.css"], .file ".m-el2.m-el".toUTF8)]
  locations_nodup := by decide

def stagedWhole : Batch :=
  ⟨stagedTree, ⟨"/d/e"⟩, [(.style, ".m-el2"), (.style, ".m-el2.m-el")]⟩

/-- The first stylesheet by itself. -/
def stagedFirst : Batch := ⟨shortTree ".m-el2", ⟨"/d/e"⟩, [(.style, ".m-el2")]⟩

/-- The second stylesheet, with the cache of the first one. -/
def stagedSecond : Batch :=
  ⟨cachedTree ".m-el2.m-el" memberAlone.render, ⟨"/d/e"⟩, [(.style, ".m-el2.m-el")]⟩

theorem savable_of_resolve {tree : FileTree}
    (hresolve : tree.resolve true ⟨"/c"⟩ = .ok (.vacant ["c"]) ∨
      ∃ content, tree.find ⟨"/c"⟩ = .ok (["c"], .file content)) (catalog : Catalog) :
    ∃ written, catalog.save tree shortSettings.cachePath = (written, .ok ()) :=
  ⟨_, save_short catalog hresolve⟩

theorem vacant_stagedTree : stagedTree.resolve true ⟨"/c"⟩ = .ok (.vacant ["c"]) :=
  FileTree.resolve_of_resolveWithin 3 rfl

theorem ready_stagedWhole : stagedWhole.Ready shortSettings where
  provides := by
    have hjoin : (⟨"/d/e"⟩ : Path).join ⟨"i"⟩ = ⟨"/d/e/i"⟩ := by decide +kernel
    have hroot : stagedTree.findLink ⟨"/d/e"⟩ = .ok (["d", "e"], .directory) :=
      FileTree.findLink_of_resolve (FileTree.resolve_of_resolveWithin 4 rfl)
    have hindex : hasIndex stagedTree shortSettings ⟨"/d/e"⟩ = true := by
      simp only [hasIndex, shortSettings, hjoin]
      exact FileTree.isFile_of_find (FileTree.find_of_resolveWithin 5 rfl)
    have hfolders : featureFolders stagedTree shortSettings ⟨"/d/e"⟩ = .ok [⟨"/d/e"⟩] :=
      featureFolders_of_childless hroot rfl hindex
    have hfiles : sourceFiles stagedTree ⟨"/d/e"⟩ = .ok [⟨⟨"/d/e/a.css"⟩, "a.css", .style⟩,
        ⟨⟨"/d/e/b.css"⟩, "b.css", .style⟩] :=
      sourceFiles_of_perm (FileTree.find_of_findLink (by simp) hroot) (by decide +kernel)
        (by decide +kernel)
    apply provides_of_single hfolders hfiles
    have hfirst : stagedTree.find ⟨"/d/e/a.css"⟩ =
        .ok (["d", "e", "a.css"], .file ".m-el2".toUTF8) := FileTree.find_of_resolveWithin 5 rfl
    have hsecond : stagedTree.find ⟨"/d/e/b.css"⟩ =
        .ok (["d", "e", "b.css"], .file ".m-el2.m-el".toUTF8) :=
      FileTree.find_of_resolveWithin 5 rfl
    simp only [stagedWhole, ReadAs, List.map_cons, List.map_nil, readSource_of_find hfirst,
      readSource_of_find hsecond]
  savable := savable_of_resolve (.inl vacant_stagedTree)

theorem ready_stagedFirst : stagedFirst.Ready shortSettings where
  provides := (hasStyle_shortTree ".m-el2").provides
  savable := savable_of_resolve (.inl (vacant_shortTree ".m-el2"))

theorem ready_stagedSecond : stagedSecond.Ready shortSettings where
  provides := (hasStyle_cachedTree ".m-el2.m-el" memberAlone.render).provides
  savable := savable_of_resolve (.inr ⟨_, find_cachedTree _ _⟩)

theorem not_exists_stagedFirst : stagedFirst.tree.exists? shortSettings.cachePath = false :=
  FileTree.not_exists_of_vacant (vacant_shortTree ".m-el2")

theorem not_exists_stagedWhole : stagedWhole.tree.exists? shortSettings.cachePath = false :=
  FileTree.not_exists_of_vacant vacant_stagedTree

theorem handsOn_stagedFirst : stagedFirst.HandsOn shortSettings shortRules memberAlone := by
  obtain ⟨hroom, hgrown⟩ :
      (Catalog.empty.grow (shortRules.stream stagedFirst.contents)).exhausted = none ∧
        (Catalog.empty.grow (shortRules.stream stagedFirst.contents)).catalog = memberAlone :=
    grow_member
  have hhandsOn := Batch.handsOn_of_room ready_stagedFirst
    (Catalog.load_of_not_exists not_exists_stagedFirst) (Catalog.settled_empty _)
    (Catalog.notMem_names_empty _) hroom
  have hderived : memberAlone.deriveElevation shortSettings.elevationPrefix = memberAlone :=
    Catalog.deriveElevation_of_notMem (by decide)
  rwa [hgrown, hderived] at hhandsOn

/-- The two stylesheets one after another, the later one first. -/
theorem increments_staged : Increments shortSettings shortRules [stagedSecond, stagedFirst] := by
  refine .next (.first ready_stagedFirst not_exists_stagedFirst) ready_stagedSecond ?_
  rw [handsOn_stagedFirst.load]
  exact load_cachedTree _ (by decide)

theorem handsOn_stagedWhole : stagedWhole.HandsOn shortSettings shortRules memberNumbered := by
  obtain ⟨hroom, hgrown⟩ := Catalog.grow_eq_of_entries_eq
    (show ((Catalog.empty.grow (shortRules.stream stagedWhole.contents)).exhausted, _, _) =
      (none, memberAndStem.entries, memberAndStem.count) by decide +kernel)
  have hhandsOn := Batch.handsOn_of_room ready_stagedWhole
    (Catalog.load_of_not_exists not_exists_stagedWhole) (Catalog.settled_empty _)
    (Catalog.notMem_names_empty _) hroom
  rwa [hgrown, deriveElevation_memberAndStem] at hhandsOn

theorem leaves_of_incremental_builds_staged :
    stagedSecond.Leaves shortSettings shortRules memberNumbered.render.toUTF8 := by
  have hcontents : stagedWhole.contents = contentsOf [stagedSecond, stagedFirst] := by decide
  obtain ⟨-, hequal⟩ := incremental_builds_equal_one_build ready_stagedWhole
    not_exists_stagedWhole increments_staged hcontents
  obtain ⟨-, -, bytes, ⟨place, hwhole⟩, hlast⟩ :=
    hequal (Batch.not_exhausts_of_succeeds handsOn_stagedWhole.succeeds)
  obtain ⟨location, hleaves⟩ := handsOn_stagedWhole.leaves
  rw [hwhole] at hleaves
  simp only [Except.ok.injEq, Prod.mk.injEq, Entry.file.injEq] at hleaves
  rwa [hleaves.2] at hlast

end SelectorMangling.Site
