import SelectorMangling.CommandLine.Command
import SelectorMangling.Proofs.Site.Confinement
import SelectorMangling.Proofs.Site.Interruption

/-!
# The effects of a run

A run changes nothing but the source files of its locale and the cache.  If it succeeds it has
rewritten every source file once.  If a source file that is no text stops it, it has rewritten those
before that file.
-/

namespace SelectorMangling.Site

open FileTree

variable {settings : Settings} {locale : String} {loaded : Catalog} {rules : Rules}
  {before between left : Workspace}

/-! ## Rewriting at the end of a run -/

/-- Rewriting leaves the cache, which lies outside of the output. -/
theorem IsRoot.load_eq {name : String}
    (hroot : IsRoot between.tree (localeDirectory settings locale)
      (settings.distDir.location ++ [name]))
    (hlocated : settings.IsLocated)
    (hrewritten : Rewritten settings (localeDirectory settings locale) between left) :
    Catalog.load left.tree settings.cachePath = Catalog.load between.tree settings.cachePath := by
  apply Catalog.load_congr
  apply hrewritten.find_eq
  intro location entry hfind hsource
  obtain ⟨rfl, -⟩ := (hroot.plain.find_eq_ok_iff hlocated.denotes_cachePath).mp hfind
  exact hlocated.cache_outside ((List.prefix_append _ _).trans (hroot.base_prefix hsource))

/-- A run that succeeds has rewritten every source file of its locale by the catalog that is in the
cache afterwards. -/
theorem rewrittenAt_of_mangle {summary : Summary} (hlocale : isValidLocale locale = true)
    (hlocated : settings.IsLocated) (hindex : IsEntryName settings.indexFile)
    (hplain : before.tree.IsPlain)
    (hmangle : outcome (mangle settings locale) before = (.ok summary, left)) :
    Catalog.load left.tree settings.cachePath = .ok left.catalog ∧
      ∀ location, LiesInFeatureFolder before.tree settings
        (localeDirectory settings locale).location location →
          RewrittenAt left.catalog.rewriter before.tree left.tree location := by
  have hends := runEnds settings locale before
  rw [hmangle] at hends
  cases hends with
  | @done rules loaded stats count between _ _ hprepared hready hrewrite _ _ _ =>
    obtain ⟨name, -, hroot⟩ := hprepared.exists_isRoot hlocated hplain hlocale
    have hwritten := (hready.cacheOnly hlocated hplain hprepared.load).written
    have hbetween := hroot.written hwritten
    have hrewritten := rewritten_rewrite settings (localeDirectory settings locale) between
    rw [hrewrite] at hrewritten
    obtain ⟨-, htexts⟩ := rewritten_of_isRoot hbetween hrewrite
    rw [hbetween.load_eq hlocated hrewritten, hready.load_eq hlocated hplain hprepared.load,
      hrewritten.catalog_eq]
    refine ⟨rfl, ?_⟩
    intro location hlies
    rw [hroot.denotes.location_eq, ← hroot.isSource_iff_lies hindex] at hlies
    have hbelow := (List.prefix_append _ _).trans (hroot.base_prefix hlies)
    exact (htexts location ((isSource_iff_of_written hlocated hindex hroot hwritten).mpr hlies)).congr
      (entryAt_of_written hlocated hwritten hbelow)

/-- A prepared run for another locale fails only at a source file that is no text, or that cannot be
rewritten. -/
theorem haltsAt_of_prepared {fault : Fault}
    (hprepared : Prepared settings locale before.tree rules loaded)
    (hother : locale ≠ settings.referenceLocale) (hlocale : isValidLocale locale = true)
    (hlocated : settings.IsLocated) (hindex : IsEntryName settings.indexFile)
    (hplain : before.tree.IsPlain)
    (hmangle : outcome (mangle settings locale) before = (.error fault, left)) :
    Catalog.load left.tree settings.cachePath = .ok left.catalog ∧
      ∃ path : Path, path.Denotes path.location ∧
        StopsWith left.catalog before.tree path fault ∧
        HaltsAt (LiesInFeatureFolder before.tree settings
          (localeDirectory settings locale).location) left.catalog before.tree left.tree
            path.location := by
  obtain ⟨name, -, hroot⟩ := hprepared.exists_isRoot hlocated hplain hlocale
  have hsources : IsSource before.tree settings (localeDirectory settings locale) =
      LiesInFeatureFolder before.tree settings (localeDirectory settings locale).location := by
    funext location
    rw [hroot.denotes.location_eq]
    exact propext (hroot.isSource_iff_lies hindex)
  rw [usesCache_of_ne hother before rules loaded hprepared, rewriteReady] at hmangle
  rcases outcome_bind_eq_error hmangle with hrewrite | ⟨count, last, -, hreturn⟩
  · let ready : Workspace := { before with
      catalog := loaded
      events := before.events.push (.using settings.cachePath loaded.size) }
    have hready : IsRoot ready.tree (localeDirectory settings locale)
        (settings.distDir.location ++ [name]) := hroot
    have hrewritten := rewritten_rewrite settings (localeDirectory settings locale) ready
    rw [hrewrite] at hrewritten
    rw [hready.load_eq hlocated hrewritten, hrewritten.catalog_eq, ← hsources]
    exact ⟨hprepared.load, hready.haltsAt hrewrite⟩
  · rw [outcome_bind, outcome_get] at hreturn
    simp at hreturn

/-- Only a run that is prepared reads source files. -/
theorem exists_prepared_of_read {path : Path} {cause : FileFault}
    (hmangle : outcome (mangle settings locale) before = (.error (.read path cause), left)) :
    ∃ rules loaded, Prepared settings locale before.tree rules loaded := by
  simp only [mangle, outcome_bind, outcome_get] at hmangle
  split at hmangle
  · simp at hmangle
  · next hdirectory =>
    split at hmangle
    · simp at hmangle
    · next rules hrules =>
      rcases outcome_bind_eq_error hmangle with hloading | ⟨_, loading, hloading, -⟩
      · rw [outcome_loadCatalog] at hloading
        split at hloading <;> simp at hloading
      · rw [outcome_loadCatalog] at hloading
        split at hloading
        · next loaded hload => exact ⟨rules, loaded, by simpa using hdirectory, hrules, hload⟩
        · simp at hloading

/-! ## The command -/

/-- After the run it is only told what the run came to. -/
theorem outcome_mangleAndTell (settings : Settings) (locale : String) (workspace : Workspace) :
    ∃ events, outcome (mangleAndTell settings locale) workspace =
      ((outcome (mangle settings locale) workspace).1.map fun _ => (),
        { (outcome (mangle settings locale) workspace).2 with events }) := by
  rw [mangleAndTell, outcome_bind]
  cases outcome (mangle settings locale) workspace with
  | mk result left =>
    cases result with
    | error fault => exact ⟨left.events, rfl⟩
    | ok summary =>
      dsimp only
      split
      · exact ⟨_, rfl⟩
      · exact ⟨_, rfl⟩

/-- A piece of work that is part of a command comes to the same. -/
theorem run_adapt {α : Type} (work : Work α) (change : Fault → CommandFault)
    (workspace : Workspace) :
    (work.adapt change).run.run workspace =
      ((outcome work workspace).1.mapError change, (outcome work workspace).2) := by
  rw [outcome]
  rfl

theorem run_get_bind {α : Type} (next : Workspace → ExceptT CommandFault (StateM Workspace) α)
    (workspace : Workspace) :
    (get >>= next).run.run workspace = (next workspace).run.run workspace := rfl

/-- A command that is accepted runs for its locale in the tree that it finds. -/
theorem runCommand_eq {arguments : Arguments} {tree : FileTree} {result : Except CommandFault Unit}
    (hlocale : isValidLocale arguments.locale = true)
    (hsettings : Settings.ofOptions tree arguments.options = .ok settings)
    (hrun : (runCommand arguments).run.run { tree } = (result, left)) :
    ∃ ended last, outcome (mangle settings arguments.locale)
        { tree, events := #[.started arguments.locale] } = (ended, last) ∧
      result = (ended.map fun _ => ()).mapError (.mangling arguments.locale) ∧
      left.tree = last.tree ∧ left.catalog = last.catalog := by
  let started : Workspace := { tree, events := #[.started arguments.locale] }
  have hcommand : (runCommand arguments).run.run { tree } =
      ((mangleAndTell settings arguments.locale).adapt
        (.mangling arguments.locale)).run.run started := by
    simp only [runCommand, hlocale, Bool.not_true, Bool.false_eq_true, if_false]
    rw [run_get_bind]
    dsimp only
    rw [hsettings]
    rfl
  obtain ⟨events, hends⟩ := outcome_mangleAndTell settings arguments.locale started
  rw [hcommand, run_adapt, hends] at hrun
  obtain ⟨rfl, rfl⟩ := Prod.mk.inj hrun
  exact ⟨_, _, rfl, rfl, rfl, rfl⟩

/-- A locale with a script between two stylesheets, of which the first is no text. -/
def haltingTree : FileTree where
  entries :=
    [(["f"], .file shortSettingsText.toUTF8), (["c"], .file memberAlone.render.toUTF8),
     (["d"], .directory), (["d", "g"], .directory), (["d", "g", "i"], .file .empty),
     (["d", "g", "a.css"], .file ⟨#[255]⟩), (["d", "g", "b.js"], .file ".m-el2".toUTF8),
     (["d", "g", "c.css"], .file ".m-el2".toUTF8)]
  locations_nodup := by
    change [["f"], ["c"], ["d"], ["d", "g"], ["d", "g", "i"], ["d", "g", "a.css"],
      ["d", "g", "b.js"], ["d", "g", "c.css"]].Nodup
    decide

theorem lies_haltingTree {name : String} (hname : name = "a.css" ∨ name = "b.js" ∨ name = "c.css") :
    LiesInFeatureFolder haltingTree shortSettings ["d", "g"] ["d", "g", name] := by
  have hfolder : IsFeatureFolder haltingTree shortSettings ["d", "g"] ["d", "g"] :=
    ⟨⟨[], rfl, List.forall_mem_nil _⟩, _, rfl⟩
  rcases hname with rfl | rfl | rfl
  · exact ⟨⟨_, rfl⟩, ⟨"css", by decide, by decide⟩, hfolder⟩
  · exact ⟨⟨_, rfl⟩, ⟨"js", by decide, by decide⟩, hfolder⟩
  · exact ⟨⟨_, rfl⟩, ⟨"css", by decide, by decide⟩, hfolder⟩

theorem ofOptions_haltingTree :
    Settings.ofOptions haltingTree { config := some ⟨"/f"⟩ } = .ok shortSettings :=
  ofOptions_of_find rfl (find_of_resolveWithin 3 rfl)

theorem prepared_haltingTree :
    Prepared shortSettings "g" haltingTree shortRules memberAlone where
  directory := isDirectory_of_find (find_of_resolveWithin 4 rfl)
  rules := rfl
  load := by
    have hfind : haltingTree.find ⟨"/c"⟩ = .ok (["c"], .file memberAlone.render.toUTF8) :=
      find_of_resolveWithin 3 rfl
    exact Catalog.load_eq_ok_of_readText (by decide)
      (readText_of_find hfind (fromUTF8?_toUTF8 _))

/-- No text has the bytes of the first stylesheet. -/
theorem not_rewrittenAt_haltingTree (rewriter : Rewriting.Rewriter) (later : FileTree) :
    ¬RewrittenAt rewriter haltingTree later ["d", "g", "a.css"] := by
  rintro ⟨text, -, hbefore, -⟩
  have hheld : haltingTree.entryAt ["d", "g", "a.css"] = some (.file ⟨#[255]⟩) := rfl
  have hbytes : (⟨#[255]⟩ : ByteArray) = text.toUTF8 := by
    simpa using hheld.symm.trans hbefore
  have hspoilt : String.fromUTF8? ⟨#[255]⟩ = none := by decide
  rw [hbytes, fromUTF8?_toUTF8] at hspoilt
  contradiction

theorem eq_of_noText_haltingTree {location : Location} {content : ByteArray}
    (hfile : haltingTree.entryAt location = some (.file content))
    (hnoText : String.fromUTF8? content = none) : location = ["d", "g", "a.css"] := by
  have htext : ∀ text : String, String.fromUTF8? text.toUTF8 ≠ none := by
    intro text
    rw [fromUTF8?_toUTF8]
    exact Option.some_ne_none text
  have hbelow : location ≠ [] := by
    rintro rfl
    simp at hfile
  have hmem := (mem_entries_iff hbelow).mpr hfile
  simp only [haltingTree, List.mem_cons, Prod.mk.injEq, Entry.file.injEq, reduceCtorEq, and_false,
    List.not_mem_nil, false_or, or_false] at hmem
  rcases hmem with ⟨-, rfl⟩ | ⟨-, rfl⟩ | ⟨-, rfl⟩ | ⟨rfl, -⟩ | ⟨-, rfl⟩ | ⟨-, rfl⟩
  · exact absurd hnoText (htext _)
  · exact absurd hnoText (htext _)
  · exact absurd hnoText (by decide)
  · rfl
  · exact absurd hnoText (htext _)
  · exact absurd hnoText (htext _)

/-- The command fails at a file that is no text. -/
theorem exists_run_haltingTree :
    ∃ path left, (runCommand ⟨"g", { config := some ⟨"/f"⟩ }⟩).run.run { tree := haltingTree } =
      (.error (.mangling "g" (.read path .notText)), left) ∧ left.catalog = memberAlone := by
  have hlocated := Settings.isLocated_of_ofOptions ofOptions_haltingTree
  have hother : "g" ≠ shortSettings.referenceLocale := by decide
  have hplain : haltingTree.IsPlain := by decide
  cases hrun : (runCommand ⟨"g", { config := some ⟨"/f"⟩ }⟩).run.run { tree := haltingTree } with
  | mk result left =>
    obtain ⟨ended, last, hmangle, rfl, -, hcatalog⟩ :=
      runCommand_eq (show isValidLocale "g" = true by decide) ofOptions_haltingTree hrun
    cases ended with
    | ok summary =>
      obtain ⟨-, hall⟩ :=
        rewrittenAt_of_mangle (by decide) hlocated (by decide) hplain hmangle
      exact absurd (hall _ (lies_haltingTree (.inl rfl))) (not_rewrittenAt_haltingTree _ _)
    | error fault =>
      have hlast := usesCache_of_ne hother { tree := haltingTree, events := #[.started "g"] } _ _
        prepared_haltingTree
      rw [hmangle] at hlast
      have hkept : last.catalog = memberAlone := by
        rw [show last.catalog = _ from congrArg (fun ended => ended.2.catalog) hlast,
          catalog_rewriteReady]
      obtain ⟨-, path, -, hstops, -⟩ := haltsAt_of_prepared prepared_haltingTree hother (by decide)
        hlocated (by decide) hplain hmangle
      cases hstops with
      | notText => exact ⟨path, left, rfl, hcatalog.trans hkept⟩
      | @stuck text _ hnone =>
        have hnames : "" ∉ last.catalog.names := by
          rw [hkept]
          decide
        obtain ⟨_, -, hrewritten⟩ := Rewriting.exists_greedy_rewrite hnames text
        rw [hrewritten] at hnone
        contradiction

end SelectorMangling.Site
