import SelectorMangling.Proofs.Rewriting.Token
import SelectorMangling.Proofs.Site.Ignored

/-!
# Replaced names end words

Builds catalog hyphenated names only, so that each name that a rewritten text replaces ends a word.
It need not end the hyphenated name that it stands in, unless that one is cataloged as well.
-/

namespace SelectorMangling.Site

open Rewriting Extraction

/-- The catalogs that come of the empty one by builds on any files, all of them with the same
prefixes of framework selectors.  Between builds, a catalog may go through its file. -/
inductive Built (stems : List String) : Catalog → Prop
  | empty : Built stems Catalog.empty
  | build {settings : Settings} {rules : Rules} {workspace : Workspace}
      (hstems : settings.frameworkPrefixes = stems)
      (hrules : Rules.ofSettings settings = .ok rules) (root : Path)
      (hbefore : Built stems workspace.catalog) :
      Built stems (outcome (build settings rules root) workspace).2.catalog
  | reload {catalog loaded : Catalog} {tree written later : FileTree} {path : Path}
      (hbefore : Built stems catalog) (hsave : catalog.save tree path = (written, .ok ()))
      (hfile : later.find path = written.find path)
      (hload : Catalog.load later path = .ok loaded) : Built stems loaded

/-- All names have been extracted with some prefixes of framework selectors. -/
def Extracted (stems : List String) (catalog : Catalog) : Prop :=
  ∀ name ∈ catalog.names, ∃ rules : Rules, rules.stems = stems ∧ rules.IsCandidate name

namespace Extracted

variable {stems : List String} {catalog : Catalog}

theorem countKey_notMem (hextracted : Extracted stems catalog) :
    Catalog.countKey ∉ catalog.names := by
  intro hmem
  obtain ⟨rules, -, kind, content, hcandidate⟩ := hextracted _ hmem
  exact rules.countKey_notMem_candidates kind content hcandidate

theorem isToken (hextracted : Extracted stems catalog)
    (hstems : ∀ stem ∈ stems, ∀ c ∈ stem.toList, isTokenChar c = true) {name : String}
    (hname : name ∈ catalog.names) : IsToken name.toList := by
  obtain ⟨rules, rfl, kind, content, hcandidate⟩ := hextracted name hname
  exact Rules.isToken_of_mem_candidates hstems hcandidate

/-- A build catalogs what its scan extracts, however it ends. -/
theorem build {rules : Rules} (hstems : rules.stems = stems) (settings : Settings) (root : Path)
    {workspace : Workspace} (hextracted : Extracted stems workspace.catalog) :
    Extracted stems (outcome (build settings rules root) workspace).2.catalog := by
  intro name hname
  rw [(buildEnds settings rules root workspace).names_eq] at hname
  rcases (grows_scan settings rules root _).2.mem_names hname with hold | hnew
  · exact hextracted name hold
  · exact ⟨rules, hstems, hnew⟩

end Extracted

theorem Built.extracted {stems : List String} {catalog : Catalog} (hbuilt : Built stems catalog) :
    Extracted stems catalog := by
  induction hbuilt with
  | empty => exact fun name hname => absurd hname (Catalog.notMem_names_empty name)
  | build hstems hrules root _ ih =>
    exact ih.build ((Rules.exists_of_ofSettings hrules).2.2.trans hstems) _ root
  | reload _ hsave hfile hload ih =>
    rw [Catalog.load_congr hfile, Catalog.load_of_save ih.countKey_notMem hsave] at hload
    rwa [← Except.ok.inj hload]

/-- In any text, a catalog that builds have made puts codes in the place of names that end words.
A name that goes on with a hyphen is replaced only if the whole hyphenated name is not cataloged. -/
theorem replaced_names_end_words {stems : List String}
    (hstems : ∀ stem ∈ stems, ∀ c ∈ stem.toList, isTokenChar c = true) {catalog : Catalog}
    (hbuilt : Built stems catalog) (text : String) :
    ∃ replacements, Greedy catalog text.toList 0 replacements ∧
      catalog.rewrite text = some (String.ofList (splice text.toList 0 replacements)) ∧
      ∀ replacement ∈ replacements,
        IsReplacement catalog text.toList replacement ∧
          EndsWord catalog text.toList replacement := by
  have htokens : ∀ name ∈ catalog.names, IsToken name.toList := fun name hname =>
    hbuilt.extracted.isToken hstems hname
  have hempty : "" ∉ catalog.names := by
    intro hmem
    obtain ⟨last, hlast, -⟩ := (htokens "" hmem).ends
    simp at hlast
  obtain ⟨replacements, hgreedy, hrewritten⟩ := exists_greedy_rewrite hempty text
  refine ⟨replacements, hgreedy, hrewritten, ?_⟩
  intro replacement hmem
  have hreplacement := hgreedy.isReplacement replacement hmem
  exact ⟨hreplacement, hreplacement.endsWord htokens⟩

/-- The default prefixes of framework selectors. -/
def usualStems : List String := ({} : Settings).frameworkPrefixes

theorem isTokenChar_usualStems :
    ∀ stem ∈ usualStems, ∀ c ∈ stem.toList, isTokenChar c = true := by
  have hall : usualStems.all (fun stem => stem.toList.all isTokenChar) = true := by decide +kernel
  simpa only [List.all_eq_true] using hall

/-- Settings with short paths and the default prefixes. -/
def usualSettings : Settings := { shortSettings with frameworkPrefixes := usualStems }

/-- The catalog of a locale with one class name. -/
def cardTitle : Catalog where
  entries := [("card-title", "a0")]
  count := Catalog.empty.count + 1

theorem built_cardTitle : Built usualStems cardTitle := by
  let rules : Rules := ⟨usualStems, [], []⟩
  let workspace : Workspace := { tree := shortTree ".card-title" }
  have hrules : Rules.ofSettings usualSettings = .ok rules := rfl
  have hprovides : Provides (shortTree ".card-title") usualSettings ⟨"/d/e"⟩
      [(.style, ".card-title")] :=
    ⟨(hasStyle_shortTree ".card-title").provides.listed,
      (hasStyle_shortTree ".card-title").provides.reads⟩
  have hstream : rules.stream [(.style, ".card-title")] = ["card-title"] := by decide +kernel
  obtain ⟨hroom, hgrown⟩ := Catalog.grow_eq_of_entries_eq
    (show ((Catalog.empty.grow ["card-title"]).exhausted, _, _) =
      (none, cardTitle.entries, cardTitle.count) by decide +kernel)
  rw [← hstream] at hroom hgrown
  have hleft : (outcome (build usualSettings rules ⟨"/d/e"⟩) workspace).2.catalog = cardTitle :=
    calc
      (outcome (build usualSettings rules ⟨"/d/e"⟩) workspace).2.catalog =
          (Catalog.empty.grow (rules.stream [(.style, ".card-title")])).catalog.deriveElevation
            "m-el" := catalog_build_of_room hprovides hroom
      _ = cardTitle.deriveElevation "m-el" := by rw [hgrown]
      _ = cardTitle := Catalog.deriveElevation_of_notMem (by decide)
  rw [← hleft]
  exact .build rfl hrules ⟨"/d/e"⟩ .empty

theorem replaced_names_end_words_cardTitle :
    (∀ stem ∈ usualStems, ∀ c ∈ stem.toList, isTokenChar c = true) ∧ Built usualStems cardTitle ∧
      ∃ replacements, Greedy cardTitle ".card-title-extra".toList 0 replacements ∧
        ∀ replacement ∈ replacements,
          EndsWord cardTitle ".card-title-extra".toList replacement := by
  obtain ⟨replacements, hgreedy, -, hends⟩ :=
    replaced_names_end_words isTokenChar_usualStems built_cardTitle ".card-title-extra"
  exact ⟨isTokenChar_usualStems, built_cardTitle, replacements, hgreedy,
    fun replacement hmem => (hends replacement hmem).2⟩

theorem eq_of_mem_names_cardTitle {name : String} (hname : name ∈ cardTitle.names) :
    name = "card-title" :=
  List.mem_singleton.mp hname

/-- The front of the hyphenated name is the only thing to replace. -/
theorem greedy_cardTitle :
    Greedy cardTitle ".card-title-extra".toList 0 [⟨1, "card-title", "a0"⟩] := by
  have hstands : Stands cardTitle ".card-title-extra".toList 1 "card-title" :=
    ⟨by decide, by decide, by unfold IsBoundaryAt; decide, by unfold IsBoundaryAt; decide⟩
  refine .next (Nat.zero_le 1) ?_ ⟨⟨by decide, _, hstands⟩, ⟨hstands, ?_⟩, by decide⟩ (.done ?_)
  · intro between _ hbefore hcandidate
    obtain rfl : between = 0 := Nat.lt_one_iff.mp hbefore
    exact absurd hcandidate.1 (by decide)
  · intro other hother
    rw [eq_of_mem_names_cardTitle hother.cataloged]
  · rintro later hlater ⟨-, name, hother⟩
    obtain rfl := eq_of_mem_names_cardTitle hother.cataloged
    have hfits := hother.occurs.length_le
    have hstop : Replacement.stop ⟨1, "card-title", "a0"⟩ = 11 := by decide
    have hlength : ".card-title-extra".toList.length = 17 := by decide
    have hname : "card-title".toList.length = 10 := by decide
    rw [List.length_drop] at hfits
    omega

/-- A name can be replaced where it is the front of a longer hyphenated name. -/
theorem exists_replaced_name_before_hyphen :
    ∃ catalog text replacements, Built usualStems catalog ∧
      Greedy catalog text.toList 0 replacements ∧
      catalog.rewrite text = some (String.ofList (splice text.toList 0 replacements)) ∧
      ∃ replacement ∈ replacements,
        (text.toList.drop replacement.stop).head? = some '-' := by
  refine ⟨cardTitle, ".card-title-extra", _, built_cardTitle, greedy_cardTitle, ?_,
    _, List.mem_singleton_self _, ?_⟩
  · exact rewrite_of_finishWithin 2 (by decide +kernel)
  · decide

end SelectorMangling.Site
