import SelectorMangling.Proofs.Site.Increments

/-!
# Ignored class names

The patterns for class names are asked about class names only.  A name that matches one of them can
still be cataloged, as a custom property or as a framework selector, and after a scan it is
cataloged exactly if it occurs as one of these.
-/

namespace SelectorMangling

variable {settings : Settings} {rules : Rules}

/-- A name matches one of some patterns. -/
def MatchesAny (patterns : List String) (name : String) : Prop :=
  ∃ text ∈ patterns, ∃ pattern, Pattern.parse text = .ok pattern ∧ pattern.isFoundIn name = true

theorem any_isFoundIn_iff {texts : List String} {patterns : List Pattern}
    (hpatterns : texts.mapM Pattern.parse = .ok patterns) {name : String} :
    patterns.any (·.isFoundIn name) = true ↔ MatchesAny texts name := by
  induction texts generalizing patterns with
  | nil =>
    obtain rfl := Except.ok.inj hpatterns
    simp [MatchesAny]
  | cons text rest ih =>
    rw [List.mapM_cons] at hpatterns
    obtain ⟨pattern, hpattern, hpatterns⟩ := exists_of_bind_eq_ok hpatterns
    obtain ⟨others, hothers, hpatterns⟩ := exists_of_bind_eq_ok hpatterns
    obtain rfl := Except.ok.inj hpatterns
    have hfirst : (∃ found, Pattern.parse text = .ok found ∧ found.isFoundIn name = true) ↔
        pattern.isFoundIn name = true := by simp [hpattern]
    rw [List.any_cons, Bool.or_eq_true, ih hothers, ← hfirst]
    simp [MatchesAny]

namespace Rules

theorem exists_of_ofSettings (hrules : ofSettings settings = .ok rules) :
    settings.classNameIgnore.mapM Pattern.parse = .ok rules.classNameIgnore ∧
      settings.frameworkIgnore.mapM Pattern.parse = .ok rules.frameworkIgnore ∧
      rules.stems = settings.frameworkPrefixes := by
  rw [ofSettings] at hrules
  obtain ⟨classNames, hclassNames, hrules⟩ := exists_of_bind_eq_ok hrules
  obtain ⟨selectors, hselectors, hrules⟩ := exists_of_bind_eq_ok hrules
  obtain rfl := Except.ok.inj hrules
  exact ⟨hclassNames, hselectors, rfl⟩

theorem ignoresClassName_iff (hrules : ofSettings settings = .ok rules) {name : String} :
    rules.ignoresClassName name = true ↔ MatchesAny settings.classNameIgnore name :=
  any_isFoundIn_iff (exists_of_ofSettings hrules).1

theorem ignoresFrameworkSelector_iff (hrules : ofSettings settings = .ok rules) {name : String} :
    rules.ignoresFrameworkSelector name = true ↔ MatchesAny settings.frameworkIgnore name :=
  any_isFoundIn_iff (exists_of_ofSettings hrules).2.1

end Rules

/-- The name is a candidate of a file for another reason than being a class name: it is a custom
property of its styles, or a framework selector of a script that no pattern for these matches. -/
def IsOtherCandidate (settings : Settings) (content : SourceKind × String) (name : String) : Prop :=
  (∃ style ∈ styleSources content.1 content.2, name ∈ Extraction.customProperties style) ∨
    content.1 = .script ∧
      name ∈ Extraction.frameworkSelectors settings.frameworkPrefixes content.2 ∧
      ¬MatchesAny settings.frameworkIgnore name

theorem isOtherCandidate_iff (hrules : Rules.ofSettings settings = .ok rules)
    {content : SourceKind × String} {name : String}
    (hignored : MatchesAny settings.classNameIgnore name) :
    name ∈ rules.candidates content.1 content.2 ↔ IsOtherCandidate settings content name := by
  rw [← Rules.ignoresClassName_iff hrules] at hignored
  rw [IsOtherCandidate, ← Rules.ignoresFrameworkSelector_iff hrules,
    ← (Rules.exists_of_ofSettings hrules).2.2, Rules.candidates]
  by_cases hscript : content.1 = .script
  · simp [hignored, hscript, Rules.frameworkSelectors]
  · simp [hignored, hscript]

namespace Site

/-- The name occurs in the source files of a locale as a candidate that is no class name. -/
def OccursOtherwise (tree : FileTree) (settings : Settings) (root : Path) (name : String) : Prop :=
  ∃ file ∈ sources tree settings root, ∃ content, readSource tree file = .ok content ∧
    IsOtherCandidate settings content name

/-- After a scan of any locale, whether it fails or not, a cataloged name that matches a pattern for
class names occurs as a custom property or as a framework selector, and after a scan that gives a
result each name that does is cataloged. -/
theorem ignored_names_of_scan (hrules : Rules.ofSettings settings = .ok rules) (root : Path)
    (workspace : Workspace)
    (hclean : ∀ name ∈ workspace.catalog.names, ¬MatchesAny settings.classNameIgnore name) :
    (∀ name ∈ (outcome (scan settings rules root) workspace).2.catalog.names,
      MatchesAny settings.classNameIgnore name →
        OccursOtherwise workspace.tree settings root name) ∧
    ∀ stats, (outcome (scan settings rules root) workspace).1 = .ok stats →
      ∀ name, MatchesAny settings.classNameIgnore name →
        OccursOtherwise workspace.tree settings root name →
          name ∈ (outcome (scan settings rules root) workspace).2.catalog.names := by
  obtain ⟨front, contents, hfront, hreads, hcatalog, hok⟩ :=
    (goesThrough_scan settings rules root workspace.tree workspace rfl).exists_front
  rw [hcatalog]
  constructor
  · intro name hname hignored
    have hgrows : Catalog.Grows (· ∈ rules.stream contents) workspace.catalog
        (workspace.catalog.grow (rules.stream contents)).catalog :=
      Catalog.grows_grow _ fun _ hmem => hmem
    rcases hgrows.mem_names hname with hold | hnew
    · exact absurd hignored (hclean name hold)
    · obtain ⟨content, hcontent, hcandidate⟩ := List.mem_flatMap.mp hnew
      obtain ⟨file, hfile, hread⟩ := hreads.exists_file hcontent
      exact ⟨file, hfront.subset hfile, content, hread,
        (isOtherCandidate_iff hrules hignored).mp hcandidate⟩
  · rintro stats hstats name hignored ⟨file, hfile, content, hread, hother⟩
    obtain ⟨rfl, hroom⟩ := hok stats hstats
    obtain ⟨found, hfound, hfoundRead⟩ := hreads.exists_content hfile
    obtain rfl : found = content := Except.ok.inj (hfoundRead.symm.trans hread)
    have hcandidate := (isOtherCandidate_iff hrules hignored).mpr hother
    exact (Catalog.mem_names_grow_iff hroom).mpr
      (.inr (List.mem_flatMap.mpr ⟨found, hfound, hcandidate⟩))

/-- Settings that leave names alone that look like subtractions from a width. -/
def widthSettings : Settings := { shortSettings with classNameIgnore := ["^width-"] }

theorem matchesAny_width : MatchesAny widthSettings.classNameIgnore "width-100" := by
  have hfound : (do
      let pattern ← (Pattern.parse "^width-").toOption
      return pattern.isFoundIn "width-100") = some true := by decide +kernel
  cases hpattern : Pattern.parse "^width-" with
  | error fault => simp [hpattern, Except.toOption] at hfound
  | ok pattern =>
    refine ⟨_, List.mem_singleton_self _, pattern, hpattern, ?_⟩
    simpa [hpattern, Except.toOption] using hfound

theorem exists_rules_widthSettings : ∃ rules, Rules.ofSettings widthSettings = .ok rules := by
  have hok : (Rules.ofSettings widthSettings).isOk = true := by decide +kernel
  cases hrules : Rules.ofSettings widthSettings with
  | error fault => simp [hrules, Except.isOk, Except.toBool] at hok
  | ok rules => exact ⟨rules, rfl⟩

theorem provides_widthSettings (style : String) :
    Provides (shortTree style) widthSettings ⟨"/d/e"⟩ [(.style, style)] :=
  ⟨(hasStyle_shortTree style).provides.listed, (hasStyle_shortTree style).provides.reads⟩

/-- Where the name occurs only as a class name, no ignored name is cataloged. -/
theorem ignored_names_of_scan_width :
    ∃ rules, Rules.ofSettings widthSettings = .ok rules ∧
      ∀ name ∈ (outcome (scan widthSettings rules ⟨"/d/e"⟩)
        { tree := shortTree ".width-100" }).2.catalog.names,
        ¬MatchesAny widthSettings.classNameIgnore name := by
  obtain ⟨rules, hrules⟩ := exists_rules_widthSettings
  refine ⟨rules, hrules, ?_⟩
  intro name hname hignored
  have hclean : ∀ name ∈ Catalog.empty.names, ¬MatchesAny widthSettings.classNameIgnore name := by
    intro name hmem
    exact absurd hmem (Catalog.notMem_names_empty name)
  obtain ⟨file, hfile, content, hread, hother⟩ := (ignored_names_of_scan hrules ⟨"/d/e"⟩
    { tree := shortTree ".width-100" } hclean).1 name hname hignored
  obtain ⟨found, hfound, hfoundRead⟩ :=
    (provides_widthSettings ".width-100").reads.exists_content hfile
  obtain rfl : found = content := Except.ok.inj (hfoundRead.symm.trans hread)
  obtain rfl := List.mem_singleton.mp hfound
  have hproperties : Extraction.customProperties ".width-100" = [] := by decide +kernel
  rcases hother with ⟨style, hstyle, hmem⟩ | ⟨hscript, -⟩
  · obtain rfl := List.mem_singleton.mp hstyle
    simp [hproperties] at hmem
  · contradiction

/-- A custom property is cataloged even if its name matches a pattern for class names. -/
theorem exists_scan_cataloging_ignored_name :
    ∃ settings rules root workspace name, Rules.ofSettings settings = .ok rules ∧
      (∀ old ∈ workspace.catalog.names, ¬MatchesAny settings.classNameIgnore old) ∧
      MatchesAny settings.classNameIgnore name ∧
      name ∈ (outcome (scan settings rules root) workspace).2.catalog.names := by
  obtain ⟨rules, hrules⟩ := exists_rules_widthSettings
  refine ⟨widthSettings, rules, ⟨"/d/e"⟩, { tree := shortTree "--width-100:1px" }, "width-100",
    hrules, ?_, matchesAny_width, ?_⟩
  · intro old hmem
    exact absurd hmem (Catalog.notMem_names_empty old)
  · have hproperties : Extraction.customProperties "--width-100:1px" = ["width-100"] := by
      decide +kernel
    have hclasses : Extraction.classNames "--width-100:1px" = [] := by decide +kernel
    have hstream : rules.stream [(.style, "--width-100:1px")] = ["width-100"] := by
      simp [Rules.stream, Rules.candidates, styleSources, hproperties, hclasses]
    have hgrowth : ((Catalog.empty.grow ["width-100"]).exhausted,
        (Catalog.empty.grow ["width-100"]).catalog.names) = (none, ["width-100"]) := by
      decide +kernel
    rw [← hstream] at hgrowth
    obtain ⟨hroom, hnames⟩ := Prod.mk.inj hgrowth
    obtain ⟨stats, left, hscan, -, hcatalog⟩ := exists_scan_of_room
      (provides_widthSettings "--width-100:1px") hroom
      { tree := shortTree "--width-100:1px" } rfl rfl
    rw [hscan, hcatalog, hnames, hstream]
    exact List.mem_singleton_self _

end Site

end SelectorMangling
