import SelectorMangling.Proofs.Catalog.Spelling
import SelectorMangling.Proofs.Extraction.Token
import SelectorMangling.Proofs.Site.Ignored

/-!
# Catalogs that builds make

Builds with various settings, one after another and each on its own files, start from the empty
catalog.  What growing and numbering keep holds of every catalog that they make.
-/

namespace SelectorMangling.Site

/-- The catalogs that come of the empty one by builds on any files, each with settings that are
`allowed`.  Between builds, a catalog may go through its file. -/
inductive MadeBy (allowed : Settings → Prop) : Catalog → Prop
  | empty : MadeBy allowed Catalog.empty
  /-- A build, whether it fails or not. -/
  | build {settings : Settings} {rules : Rules} {workspace : Workspace}
      (hallowed : allowed settings) (hrules : Rules.ofSettings settings = .ok rules) (root : Path)
      (hbefore : MadeBy allowed workspace.catalog) :
      MadeBy allowed (outcome (build settings rules root) workspace).2.catalog
  /-- Loading a saved catalog from a later tree that still has its file. -/
  | reload {catalog loaded : Catalog} {tree written later : FileTree} {path : Path}
      (hbefore : MadeBy allowed catalog) (hsave : catalog.save tree path = (written, .ok ()))
      (hfile : later.find path = written.find path)
      (hload : Catalog.load later path = .ok loaded) : MadeBy allowed loaded

/-- A build lets the catalog grow by candidates, and may number it then. -/
theorem catalog_of_build (settings : Settings) (rules : Rules) (root : Path)
    (workspace : Workspace) :
    ∃ grown, Catalog.Grows rules.IsCandidate workspace.catalog grown ∧
      ((outcome (build settings rules root) workspace).2.catalog = grown ∨
        (outcome (build settings rules root) workspace).2.catalog =
          grown.deriveElevation settings.elevationPrefix) := by
  have hgrows := (grows_scan settings rules root (scanStart root workspace)).2
  refine ⟨_, hgrows, ?_⟩
  have hends := buildEnds settings rules root workspace
  cases hscan : outcome (scan settings rules root) (scanStart root workspace) with
  | mk result scanned =>
    cases result with
    | ok stats => exact .inr (hends.catalog_eq hscan)
    | error fault =>
      left
      generalize (outcome (build settings rules root) workspace).1 = built at hends
      cases hends with
      | scanFails hfails => rw [← hscan, hfails]
      | saveFails hother => simp [hscan] at hother
      | inconsistent hother => simp [hscan] at hother
      | done hother => simp [hscan] at hother

/-- What a build makes of files that can be read, as long as there are codes left. -/
theorem MadeBy.of_provides {allowed : Settings → Prop} {settings : Settings} {rules : Rules}
    {tree : FileTree} {root : Path} {contents : List (SourceKind × String)}
    (hallowed : allowed settings) (hrules : Rules.ofSettings settings = .ok rules)
    (hprovides : Provides tree settings root contents)
    (hroom : (Catalog.empty.grow (rules.stream contents)).exhausted = none) :
    MadeBy allowed ((Catalog.empty.grow (rules.stream contents)).catalog.deriveElevation
      settings.elevationPrefix) := by
  rw [← catalog_build_of_room hprovides hroom]
  exact .build hallowed hrules root .empty

/-- All names have been candidates under allowed settings. -/
def NamesAreCandidates (allowed : Settings → Prop) (catalog : Catalog) : Prop :=
  ∀ name ∈ catalog.names, ∃ settings rules, allowed settings ∧
    Rules.ofSettings settings = .ok rules ∧ rules.IsCandidate name

namespace MadeBy

variable {allowed : Settings → Prop} {catalog : Catalog}

theorem mono {other : Settings → Prop} (hmade : MadeBy allowed catalog)
    (hother : ∀ settings, allowed settings → other settings) : MadeBy other catalog := by
  induction hmade with
  | empty => exact .empty
  | build hallowed hrules root _ ih => exact .build (hother _ hallowed) hrules root ih
  | reload _ hsave hfile hload ih => exact .reload ih hsave hfile hload

/-- What growing by candidates and numbering keep holds of all catalogs that builds make.  Going
through a file changes nothing, since no name is spelled like the member of the counter. -/
theorem invariant {holds : Catalog → Prop} (hmade : MadeBy allowed catalog)
    (hempty : holds Catalog.empty)
    (hgrows : ∀ {settings rules earlier later}, allowed settings →
      Rules.ofSettings settings = .ok rules → holds earlier →
      Catalog.Grows rules.IsCandidate earlier later → holds later)
    (hderive : ∀ {settings earlier}, allowed settings → holds earlier →
      holds (earlier.deriveElevation settings.elevationPrefix)) :
    holds catalog ∧ Catalog.countKey ∉ catalog.names := by
  induction hmade with
  | empty => exact ⟨hempty, Catalog.notMem_names_empty _⟩
  | @build settings rules workspace hallowed hrules root _ ih =>
    obtain ⟨grown, hgrown, hcatalog⟩ := catalog_of_build settings rules root workspace
    have hholds : holds grown := hgrows hallowed hrules ih.1 hgrown
    have hfree : Catalog.countKey ∉ grown.names := hgrown.countKey_notMem ih.2
    rcases hcatalog with hcatalog | hcatalog
    · rw [hcatalog]
      exact ⟨hholds, hfree⟩
    · rw [hcatalog, Catalog.names_deriveElevation]
      exact ⟨hderive hallowed hholds, hfree⟩
  | reload _ hsave hfile hload ih =>
    rw [Catalog.load_congr hfile, Catalog.load_of_save ih.2 hsave] at hload
    rwa [← Except.ok.inj hload]

theorem spelled (hmade : MadeBy allowed catalog) : catalog.Spelled := by
  refine (hmade.invariant Catalog.spelled_empty ?_ ?_).1
  · intro _ _ _ _ _ _ hspelled hgrown
    exact hspelled.grows hgrown
  · intro _ _ _ hspelled
    exact hspelled.deriveElevation _

theorem namesAreCandidates (hmade : MadeBy allowed catalog) :
    NamesAreCandidates allowed catalog := by
  refine (hmade.invariant ?_ ?_ ?_).1
  · intro name hname
    exact absurd hname (Catalog.notMem_names_empty name)
  · intro settings rules earlier later hallowed hrules hearlier hgrown name hname
    rcases hgrown.mem_names hname with hold | hnew
    · exact hearlier name hold
    · exact ⟨settings, rules, hallowed, hrules, hnew⟩
  · intro _ _ _ hearlier name hname
    rw [Catalog.names_deriveElevation] at hname
    exact hearlier name hname

/-- Names are tokens if all prefixes of framework selectors have characters of tokens only. -/
theorem isToken (hmade : MadeBy allowed catalog)
    (hstems : ∀ settings, allowed settings → ∀ stem ∈ settings.frameworkPrefixes,
      ∀ c ∈ stem.toList, Rewriting.isTokenChar c = true) {name : String}
    (hname : name ∈ catalog.names) : Extraction.IsToken name.toList := by
  obtain ⟨settings, rules, hallowed, hrules, kind, content, hcandidate⟩ :=
    hmade.namesAreCandidates name hname
  apply Rules.isToken_of_mem_candidates _ hcandidate
  rw [(Rules.exists_of_ofSettings hrules).2.2]
  exact hstems settings hallowed

end MadeBy

/-! ## A page with a stylesheet -/

/-- A locale with a page and a stylesheet. -/
def pageTree (style : String) : FileTree where
  entries :=
    [(["d"], .directory), (["d", "e"], .directory), (["d", "e", "a.css"], .file style.toUTF8),
     (["d", "e", "index.html"], .file .empty)]
  locations_nodup := by
    change [["d"], ["d", "e"], ["d", "e", "a.css"], ["d", "e", "index.html"]].Nodup
    decide

theorem featureFolders_pageTree (style : String) :
    featureFolders (pageTree style) {} ⟨"/d/e"⟩ = .ok [⟨"/d/e"⟩] := by
  have hjoin : Path.join ⟨"/d/e"⟩ ⟨"index.html"⟩ = ⟨"/d/e/index.html"⟩ := by decide +kernel
  have hroot : (pageTree style).findLink ⟨"/d/e"⟩ = .ok (["d", "e"], .directory) :=
    FileTree.findLink_of_resolve (FileTree.resolve_of_resolveWithin 4 rfl)
  apply featureFolders_of_childless hroot rfl
  rw [hasIndex, hjoin]
  exact FileTree.isFile_of_find (FileTree.find_of_resolveWithin 5 rfl)

theorem sourceFiles_pageTree (style : String) :
    sourceFiles (pageTree style) ⟨"/d/e"⟩ = .ok [⟨⟨"/d/e/a.css"⟩, "a.css", .style⟩,
      ⟨⟨"/d/e/index.html"⟩, "index.html", .markup⟩] := by
  have hfolder : (pageTree "").find ⟨"/d/e"⟩ = .ok (["d", "e"], .directory) :=
    FileTree.find_of_resolveWithin 4 rfl
  have hbare : (pageTree "").bare = (pageTree style).bare := rfl
  rw [← sourceFiles_bare, ← hbare, sourceFiles_bare]
  exact sourceFiles_of_perm hfolder (by decide +kernel) (by decide +kernel)

theorem provides_pageTree (style : String) :
    Provides (pageTree style) {} ⟨"/d/e"⟩ [(.style, style), (.markup, "")] := by
  have hstyle : (pageTree style).find ⟨"/d/e/a.css"⟩ =
      .ok (["d", "e", "a.css"], .file style.toUTF8) :=
    FileTree.find_of_resolveWithin 5 rfl
  have hpage : (pageTree style).find ⟨"/d/e/index.html"⟩ =
      .ok (["d", "e", "index.html"], .file "".toUTF8) :=
    FileTree.find_of_resolveWithin 5 rfl
  apply provides_of_single (featureFolders_pageTree style) (sourceFiles_pageTree style)
  simp only [ReadAs, List.map_cons, List.map_nil, readSource_of_find hstyle,
    readSource_of_find hpage]

/-- What is found in a page with a stylesheet by the rules of the default settings. -/
theorem exists_rules_of_style (style : String) (names : List String)
    (hfound : (do
      let rules ← (Rules.ofSettings {}).toOption
      return rules.stream [(.style, style), (.markup, "")]) = some names) :
    ∃ rules, Rules.ofSettings {} = .ok rules ∧
      rules.stream [(.style, style), (.markup, "")] = names := by
  cases hrules : Rules.ofSettings {} with
  | error fault => simp [hrules, Except.toOption] at hfound
  | ok rules => exact ⟨rules, rfl, by simpa [hrules, Except.toOption] using hfound⟩

/-- What the default settings make of a page with a stylesheet. -/
theorem madeBy_of_style (style : String) (names : List String) {grown : Catalog}
    (hfound : (do
      let rules ← (Rules.ofSettings {}).toOption
      return rules.stream [(.style, style), (.markup, "")]) = some names)
    (hgrowth : ((Catalog.empty.grow names).exhausted, (Catalog.empty.grow names).catalog.entries,
      (Catalog.empty.grow names).catalog.count) = (none, grown.entries, grown.count)) :
    MadeBy (· = {}) (grown.deriveElevation ({} : Settings).elevationPrefix) := by
  obtain ⟨rules, hrules, rfl⟩ := exists_rules_of_style style names hfound
  obtain ⟨hroom, hgrown⟩ := Catalog.grow_eq_of_entries_eq hgrowth
  rw [← hgrown]
  exact .of_provides rfl hrules (provides_pageTree style) hroom

end SelectorMangling.Site
