import SelectorMangling.Proofs.Rewriting.Shrinking
import SelectorMangling.Proofs.Site.Making
import SelectorMangling.Proofs.Site.WholeWords

/-!
# Rewriting keeps what surrounds tokens

Names and codes are made of ASCII letters, digits, hyphens and underscores, as long as the prefixes
of framework selectors are.  So quotation marks, brackets, white space and all other text outside
tokens come through a rewriting unchanged and in their order.
-/

namespace SelectorMangling

open Rewriting Extraction

namespace Site

variable {allowed : Settings → Prop} {stems : List String} {catalog : Catalog}

/-- Builds with the same prefixes of framework selectors are builds with allowed settings. -/
theorem Built.madeBy (hbuilt : Built stems catalog)
    (hallowed : ∀ settings : Settings, settings.frameworkPrefixes = stems → allowed settings) :
    MadeBy allowed catalog := by
  induction hbuilt with
  | empty => exact .empty
  | build hstems hrules root _ ih => exact .build (hallowed _ hstems) hrules root ih
  | reload _ hsave hfile hload ih => exact .reload ih hsave hfile hload

/-- Settings whose prefixes of framework selectors have characters of tokens only. -/
def HasTokenStems (settings : Settings) : Prop :=
  ∀ stem ∈ settings.frameworkPrefixes, ∀ c ∈ stem.toList, isTokenChar c = true

theorem MadeBy.empty_notMem (hmade : MadeBy HasTokenStems catalog) : "" ∉ catalog.names := by
  intro hmem
  obtain ⟨last, hlast, -⟩ := (hmade.isToken (fun _ hstems => hstems) hmem).ends
  simp at hlast

/-- Whatever is replaced in a text, the characters outside tokens stay in their order. -/
theorem surroundings_rewrite (hmade : MadeBy HasTokenStems catalog) (text : String) :
    ∃ new, catalog.rewrite text = some new ∧
      surroundings new.toList = surroundings text.toList := by
  have hnames : ∀ name ∈ catalog.names, ∀ c ∈ name.toList, isTokenChar c = true := by
    intro name hname
    exact (hmade.isToken (fun _ hstems => hstems) hname).chars
  have hcodes : ∀ code ∈ catalog.codes, ∀ c ∈ code.toList, isTokenChar c = true := by
    intro code hcode c hc
    exact isTokenChar_of_isWord ((hmade.spelled code hcode).isWord c hc)
  obtain ⟨replacements, hgreedy, hrewritten⟩ := exists_greedy_rewrite hmade.empty_notMem text
  refine ⟨_, hrewritten, ?_⟩
  rw [String.toList_ofList, surroundings_splice hgreedy hnames hcodes, List.drop_zero]

theorem madeBy_cardTitle : MadeBy HasTokenStems cardTitle := by
  apply built_cardTitle.madeBy
  intro settings hstems
  rw [HasTokenStems, hstems]
  exact isTokenChar_usualStems

theorem surroundings_rewrite_cardTitle :
    MadeBy HasTokenStems cardTitle ∧
      cardTitle.rewrite "<p class=\"card-title\">é</p>" = some "<p class=\"a0\">é</p>" ∧
      surroundings "<p class=\"a0\">é</p>".toList =
        surroundings "<p class=\"card-title\">é</p>".toList := by
  have hrewrite : cardTitle.rewrite "<p class=\"card-title\">é</p>" =
    some "<p class=\"a0\">é</p>" := rewrite_of_finishWithin 2 (by decide +kernel)
  obtain ⟨new, hnew, hsame⟩ :=
    surroundings_rewrite madeBy_cardTitle "<p class=\"card-title\">é</p>"
  obtain rfl := Option.some.inj (hrewrite.symm.trans hnew)
  exact ⟨madeBy_cardTitle, hrewrite, hsame⟩

end Site

end SelectorMangling
