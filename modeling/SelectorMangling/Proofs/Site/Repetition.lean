import SelectorMangling.Proofs.Extraction.Beginning
import SelectorMangling.Proofs.Rewriting.Awakening
import SelectorMangling.Proofs.Site.Surroundings

/-!
# Rewriting a rewritten text

A text that has been rewritten is rewritten to itself, unless a code has come to stand in a name or
has taken away the front of a route path.  The first needs a hyphen next to the replaced name.
-/

namespace SelectorMangling.Site

open Rewriting Extraction

/-- Settings with prefixes of framework selectors that are words, or hyphenated names that begin
with one. -/
structure HasWordStems (settings : Settings) : Prop where
  ne_nil : settings.frameworkPrefixes ≠ []
  begins : ∀ stem ∈ settings.frameworkPrefixes, isWordSide stem.toList.head? = true
  chars : HasTokenStems settings

theorem MadeBy.wellNamed {catalog : Catalog} (hmade : MadeBy HasWordStems catalog) :
    catalog.WellNamed where
  isToken name hname := hmade.isToken (fun _ hstems => hstems.chars) hname
  begins name hname := by
    obtain ⟨settings, rules, hstems, hrules, kind, content, hcandidate⟩ :=
      hmade.namesAreCandidates name hname
    have hsame := (Rules.exists_of_ofSettings hrules).2.2
    exact Rules.isWordSide_of_mem_candidates (hsame ▸ hstems.ne_nil) (hsame ▸ hstems.begins)
      hcandidate
  isCompound name hname := by
    obtain ⟨_, _, _, _, _, _, hcandidate⟩ := hmade.namesAreCandidates name hname
    exact Rules.isCompound_of_mem_candidates hcandidate
  spelled := hmade.spelled

/-- A second rewriting changes nothing exactly if no code has woken a name, and in particular if
nothing adjoins the names that the first one has replaced. -/
theorem rewrite_rewrite_eq_iff {catalog : Catalog} (hmade : MadeBy HasWordStems catalog)
    (text : String) :
    ∃ replacements new, Greedy catalog text.toList 0 replacements ∧
      catalog.rewrite text = some new ∧ new.toList = splice text.toList 0 replacements ∧
      (catalog.rewrite new = some new ↔
        ∀ landing ∈ landings 0 0 replacements, ¬Wakes catalog new.toList landing) ∧
      ((∀ replacement ∈ replacements, ¬Adjoins text.toList replacement) →
        catalog.rewrite new = some new) := by
  have hnamed := hmade.wellNamed
  obtain ⟨replacements, hgreedy, hrewritten⟩ := exists_greedy_rewrite hnamed.empty_notMem text
  have hnew : (String.ofList (splice text.toList 0 replacements)).toList =
      splice text.toList 0 replacements := String.toList_ofList
  generalize String.ofList (splice text.toList 0 replacements) = new at hrewritten hnew
  have hsame : catalog.rewrite new = some new ↔
      ∀ landing ∈ landings 0 0 replacements, ¬Wakes catalog new.toList landing := by
    rw [rewrite_eq_self_iff hnamed, ← not_exists, hnew, hgreedy.exists_isCandidate_iff hnamed]
    simp only [not_exists, not_and]
  refine ⟨replacements, new, hgreedy, hrewritten, hnew, hsame, ?_⟩
  intro hfree
  apply hsame.mpr
  intro landing hmem hwakes
  obtain ⟨hreplaced, hlands⟩ := hgreedy.landsIn hnamed .start landing hmem
  rw [hnew] at hwakes
  exact hfree _ hreplaced (hwakes.adjoins hnamed (hgreedy.isReplacement _ hreplaced) hlands)

/-- Class names of which one begins with the code of another one and a hyphen. -/
def joinedNames : Catalog where
  entries := [("c-xyz", "a0"), ("alpha-one", "b1"), ("foo-bar", "c")]
  count := Catalog.empty.count + 3
  names_nodup := by decide

/-- The default settings make the catalog. -/
theorem madeBy_joinedNames : MadeBy (· = {}) joinedNames := by
  have hmade : MadeBy (· = {}) (joinedNames.deriveElevation ({} : Settings).elevationPrefix) :=
    madeBy_of_style ".c-xyz .alpha-one .foo-bar" ["c-xyz", "alpha-one", "foo-bar"]
      (by decide +kernel) (by decide +kernel)
  rwa [Catalog.deriveElevation_of_notMem (by decide)] at hmade

theorem hasWordStems_default : HasWordStems {} where
  ne_nil := by decide
  begins := by
    have hall : usualStems.all (fun stem => isWordSide stem.toList.head?) = true := by
      decide +kernel
    exact List.all_eq_true.mp hall
  chars := isTokenChar_usualStems

theorem madeBy_wordStems_joinedNames : MadeBy HasWordStems joinedNames :=
  madeBy_joinedNames.mono fun _ hsettings => hsettings ▸ hasWordStems_default

theorem longestFirst_joinedNames :
    joinedNames.longestFirst = ["alpha-one", "foo-bar", "c-xyz"] := by
  have hsizes : ∀ left ∈ joinedNames.names, ∀ right ∈ joinedNames.names,
      left.utf8ByteSize = right.utf8ByteSize → left = right := by decide
  have hperm : joinedNames.longestFirst.Perm ["alpha-one", "foo-bar", "c-xyz"] :=
    (List.mergeSort_perm _ _).trans (by decide)
  refine hperm.eq_of_pairwise ?_ (pairwise_longestFirst joinedNames) (by decide)
  intro left right hleft hright hle hge
  have hlisted : right ∈ joinedNames.longestFirst := hperm.mem_iff.mpr hright
  exact hsizes left (mem_longestFirst.mp hleft) right (mem_longestFirst.mp hlisted)
    (Nat.le_antisymm hge hle)

theorem rewrite_joinedNames :
    joinedNames.rewrite "<p class=\"foo-bar-xyz\">" = some "<p class=\"c-xyz\">" ∧
      joinedNames.rewrite "<p class=\"c-xyz\">" = some "<p class=\"a0\">" := by
  have hrewriter : joinedNames.rewriter =
      ⟨joinedNames, ["alpha-one", "foo-bar", "c-xyz"].map String.toList⟩ := by
    rw [Catalog.rewriter, longestFirst_joinedNames]
  constructor
  · apply rewrite_of_finishWithin 2
    rw [hrewriter]
    decide +kernel
  · apply rewrite_of_finishWithin 2
    rw [hrewriter]
    decide +kernel

/-- The code of the class name wakes the other name. -/
theorem rewrite_rewrite_eq_iff_joinedNames :
    MadeBy HasWordStems joinedNames ∧
      ∃ replacements, Greedy joinedNames "<p class=\"foo-bar-xyz\">".toList 0 replacements ∧
        ∃ landing ∈ landings 0 0 replacements,
          Wakes joinedNames "<p class=\"c-xyz\">".toList landing := by
  obtain ⟨hfirst, hsecond⟩ := rewrite_joinedNames
  obtain ⟨replacements, new, hgreedy, hnew, -, hsame, -⟩ :=
    rewrite_rewrite_eq_iff madeBy_wordStems_joinedNames "<p class=\"foo-bar-xyz\">"
  obtain rfl := Option.some.inj (hfirst.symm.trans hnew)
  refine ⟨madeBy_wordStems_joinedNames, replacements, hgreedy, ?_⟩
  by_contra hnone
  rw [hsecond] at hsame
  exact absurd (hsame.mpr fun landing hmem hwakes => hnone ⟨landing, hmem, hwakes⟩) (by decide)

/-- Under the default settings, a second rewriting can replace what the first one has made. -/
theorem exists_rewrite_rewrite_ne :
    ∃ catalog text new newer, MadeBy (· = {}) catalog ∧ catalog.rewrite text = some new ∧
      catalog.rewrite new = some newer ∧ newer ≠ new := by
  obtain ⟨hfirst, hsecond⟩ := rewrite_joinedNames
  exact ⟨joinedNames, _, _, _, madeBy_joinedNames, hfirst, hsecond, by decide⟩

end SelectorMangling.Site
