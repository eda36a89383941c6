import SelectorMangling.Proofs.Rewriting.Place

/-!
# Turns of the loop

The loop that rewrites a text searches once in each turn.  What a turn does is told by the names that
stand in the text from its place on: whatever holds of all turns follows from that.
-/

namespace SelectorMangling.Rewriting

/-! ## Searches -/

section Search

variable {names : List (List Char)} {skipped before rest : List Char} {found : Occurrence}

/-- What a search has passed by stands between the place where it began and the occurrence. -/
theorem exists_passed_of_searchNames
    (hfound : searchNames names skipped before rest = some found) :
    ∃ passed, rest = passed ++ found.text ∧ found.skipped = passed.reverse ++ skipped ∧
      found.before = passed.reverse ++ before := by
  induction rest generalizing skipped before with
  | nil =>
    simp only [searchNames] at hfound
    split at hfound
    · cases hfound
      exact ⟨[], rfl, rfl, rfl⟩
    · contradiction
  | cons first tail ih =>
    simp only [searchNames] at hfound
    split at hfound
    · cases hfound
      exact ⟨[], rfl, rfl, rfl⟩
    · obtain ⟨passed, hrest, hskipped, hbefore⟩ := ih hfound
      exact ⟨first :: passed, by rw [hrest, List.cons_append], by simp [hskipped],
        by simp [hbefore]⟩

/-- A search does not change the text. -/
theorem text_of_searchNames (hfound : searchNames names skipped before rest = some found) :
    found.before.reverse ++ found.text = before.reverse ++ rest := by
  obtain ⟨passed, hrest, -, hbefore⟩ := exists_passed_of_searchNames hfound
  rw [hrest, hbefore]
  simp

/-- The text goes on with the name that is found. -/
theorem name_of_searchNames (hfound : searchNames names skipped before rest = some found) :
    found.name ++ found.text.drop found.name.length = found.text := by
  have hoccurs := occursAt_of_searchNames hfound
  simp only [occursAt, Bool.and_eq_true, List.isPrefixOf_iff_prefix] at hoccurs
  exact List.prefix_iff_eq_append.mp hoccurs.1.1

variable {catalog : Catalog}

/-- What a search finds is the longest name that stands where it stops. -/
theorem standsLongest_of_searchNames
    (hfound : searchNames catalog.rewriter.names skipped before rest = some found) :
    StandsLongest catalog (before.reverse ++ rest) found.before.length
      (String.ofList found.name) := by
  rw [← text_of_searchNames hfound]
  apply standsLongest_of_find?
  simpa using find?_of_searchNames hfound

/-- No name stands where a search passes by. -/
theorem not_stands_of_searchNames_eq_some
    (hfound : searchNames catalog.rewriter.names skipped before rest = some found) {place : Nat}
    (hplace : before.length ≤ place) (hpassed : place < found.before.length) (name : String) :
    ¬Stands catalog (before.reverse ++ rest) place name := by
  induction rest generalizing skipped before with
  | nil =>
    simp only [searchNames] at hfound
    split at hfound
    · cases hfound
      exact absurd hplace (Nat.not_le.mpr hpassed)
    · contradiction
  | cons first tail ih =>
    simp only [searchNames] at hfound
    split at hfound
    · cases hfound
      exact absurd hplace (Nat.not_le.mpr hpassed)
    · next hnone =>
      rcases Nat.eq_or_lt_of_le hplace with rfl | hlater
      · apply find?_eq_none_iff.mp
        simpa using hnone
      · simpa using ih hfound hlater

/-- If a search finds nothing, no name stands in the rest of the text or at its end. -/
theorem not_stands_of_searchNames_eq_none
    (hnone : searchNames catalog.rewriter.names skipped before rest = none) {place : Nat}
    (hplace : before.length ≤ place) (name : String) :
    ¬Stands catalog (before.reverse ++ rest) place name := by
  induction rest generalizing skipped before with
  | nil =>
    simp only [searchNames] at hnone
    split at hnone
    · contradiction
    · next hfind =>
      intro hstands
      have hend : (before.reverse ++ []).length = before.length := by simp
      have hstands := hstands.at_end (hend ▸ hplace)
      rw [hend] at hstands
      refine find?_eq_none_iff.mp ?_ name hstands
      rwa [List.append_nil, List.take_of_length_le (by simp), List.reverse_reverse,
        List.drop_eq_nil_of_le (by simp)]
  | cons first tail ih =>
    simp only [searchNames] at hnone
    split at hnone
    · contradiction
    · next hfind =>
      rcases Nat.eq_or_lt_of_le hplace with rfl | hlater
      · apply find?_eq_none_iff.mp
        simpa using hfind
      · simpa using ih hnone hlater

end Search

/-! ## What a turn does -/

/-- What a turn comes to: nothing is found, or a name with its code is replaced or passed by, or
what is to be passed by is nothing at the end of the text. -/
inductive TurnsTo (catalog : Catalog) (progress : Progress) : Turn → Prop
  | ends (hnone : searchNames catalog.rewriter.names [] progress.before progress.rest = none) :
      TurnsTo catalog progress .ends
  | replaces {found : Occurrence} {code : String}
      (hfound :
        searchNames catalog.rewriter.names [] progress.before progress.rest = some found)
      (hdelimited : isDelimited found.before = true)
      (hcode : catalog.get? (String.ofList found.name) = some code) :
      TurnsTo catalog progress (.goesOn (progress.replace found code.toList))
  | passes {found : Occurrence} {first : Char} {rest : List Char}
      (hfound :
        searchNames catalog.rewriter.names [] progress.before progress.rest = some found)
      (hpassed : isDelimited found.before = false) (htext : found.text = first :: rest) :
      TurnsTo catalog progress (.goesOn (progress.passBy found first rest))
  | fails {found : Occurrence}
      (hfound :
        searchNames catalog.rewriter.names [] progress.before progress.rest = some found)
      (hpassed : isDelimited found.before = false) (htext : found.text = []) :
      TurnsTo catalog progress .fails

theorem turnsTo (catalog : Catalog) (progress : Progress) :
    TurnsTo catalog progress (catalog.rewriter.turn progress) := by
  rw [Rewriter.turn]
  split
  · next hnone => exact .ends hnone
  · next found hfound =>
    split
    · next hdelimited =>
      obtain ⟨code, hcode⟩ := Catalog.exists_get?_of_mem_names
        (standsLongest_of_searchNames hfound).cataloged
      have hnext : progress.writeCode catalog found = progress.replace found code.toList := by
        simp [Progress.writeCode, hcode]
      rw [Catalog.rewriter, hnext]
      exact .replaces hfound hdelimited hcode
    · next hpassed =>
      rw [Bool.not_eq_true] at hpassed
      split
      · next htext => exact .fails hfound hpassed htext
      · next first rest htext => exact .passes hfound hpassed htext

/-- The loop with a bound on the number of its turns. -/
def Rewriter.finishWithin (rewriter : Rewriter) : (turns : Nat) → Progress → Option Progress
  | 0, _ => none
  | turns + 1, progress =>
    match rewriter.turn progress with
    | .ends => some progress
    | .goesOn next => rewriter.finishWithin turns next
    | .fails => none

theorem finish_of_finishWithin {rewriter : Rewriter} {turns : Nat} {progress last : Progress}
    (hlast : rewriter.finishWithin turns progress = some last) :
    rewriter.finish progress = some last := by
  induction turns generalizing progress with
  | zero => contradiction
  | succ turns ih =>
    rw [Rewriter.finishWithin] at hlast
    rw [Rewriter.finish]
    cases hturn : rewriter.turn progress with
    | ends => rwa [hturn] at hlast
    | goesOn next =>
      rw [hturn] at hlast
      exact ih hlast
    | fails =>
      rw [hturn] at hlast
      contradiction

/-- A text is rewritten to what a few turns make of it, if they come to an end. -/
theorem rewrite_of_finishWithin {catalog : Catalog} {text new : String} (turns : Nat)
    (hnew : (catalog.rewriter.finishWithin turns { rest := text.toList }).map
      (fun progress => String.ofList progress.text) = some new) :
    catalog.rewrite text = some new := by
  obtain ⟨last, hlast, rfl⟩ := Option.map_eq_some_iff.mp hnew
  rw [Catalog.rewrite, Rewriter.rewrite, Rewriter.run, finish_of_finishWithin hlast,
    Option.map_some]

section Nonempty

variable {catalog : Catalog} (hnames : "" ∉ catalog.names) {progress next : Progress}

include hnames

theorem name_ne_nil_of_searchNames {skipped before rest : List Char} {found : Occurrence}
    (hfound : searchNames catalog.rewriter.names skipped before rest = some found) :
    found.name ≠ [] := by
  intro hempty
  have hcataloged := (standsLongest_of_searchNames hfound).cataloged
  rw [hempty] at hcataloged
  exact hnames hcataloged

/-- Each turn takes at least one character off the rest of the text. -/
theorem length_rest_lt_of_turn (hturn : catalog.rewriter.turn progress = .goesOn next) :
    next.rest.length < progress.rest.length := by
  have hturns := turnsTo catalog progress
  rw [hturn] at hturns
  cases hturns with
  | @replaces found code hfound _ _ =>
    have hpos := List.length_pos_iff.mpr (name_ne_nil_of_searchNames hnames hfound)
    have hname := congrArg List.length (name_of_searchNames hfound)
    obtain ⟨passed, hrest, -, -⟩ := exists_passed_of_searchNames hfound
    rw [List.length_append] at hname
    simp only [Progress.replace, hrest, List.length_append]
    omega
  | @passes found first rest hfound _ htext =>
    obtain ⟨passed, hrest, -, -⟩ := exists_passed_of_searchNames hfound
    simp only [Progress.passBy, hrest, htext, List.length_append, List.length_cons]
    omega

theorem turn_ne_fails (progress : Progress) : catalog.rewriter.turn progress ≠ .fails := by
  intro hturn
  have hturns := turnsTo catalog progress
  rw [hturn] at hturns
  cases hturns with
  | @fails found hfound _ htext =>
    have hname := name_of_searchNames hfound
    rw [htext, List.append_eq_nil_iff] at hname
    exact name_ne_nil_of_searchNames hnames hfound hname.1

/-- If no name is empty, the loop comes to an end. -/
theorem exists_finish (progress : Progress) :
    ∃ last, catalog.rewriter.finish progress = some last := by
  induction hlength : progress.rest.length using Nat.strongRecOn generalizing progress with
  | ind length ih =>
    subst hlength
    rw [Rewriter.finish]
    cases hturn : catalog.rewriter.turn progress with
    | ends => exact ⟨progress, rfl⟩
    | goesOn next => exact ih _ (length_rest_lt_of_turn hnames hturn) next rfl
    | fails => exact absurd hturn (turn_ne_fails hnames progress)

end Nonempty

/-! ## Places of the loop -/

/-- The loop has come to a place of a text: the text goes on there, what is kept is the end of the
text before the place, and all names that were found had codes. -/
structure Progress.IsAt (text : List Char) (progress : Progress) : Prop where
  text_eq : progress.before.reverse ++ progress.rest = text
  kept : progress.kept <+: progress.before
  known : progress.unknown = []

namespace Progress.IsAt

variable {catalog : Catalog} {text : List Char} {progress next : Progress} {found : Occurrence}

theorem start (text : List Char) : IsAt text { rest := text } :=
  ⟨rfl, List.nil_prefix, rfl⟩

theorem rest_eq (hat : progress.IsAt text) : text.drop progress.before.length = progress.rest := by
  rw [← hat.text_eq, ← List.length_reverse, List.drop_left]

theorem place_le (hat : progress.IsAt text) : progress.before.length ≤ text.length := by
  rw [← hat.text_eq, List.length_append, List.length_reverse]
  exact Nat.le_add_right _ _

/-- A search leads to the first place of the text, from the place of the loop on, at which a name
stands, and to the longest name there. -/
theorem of_searchNames (hat : progress.IsAt text)
    (hfound :
      searchNames catalog.rewriter.names [] progress.before progress.rest = some found) :
    progress.before.length ≤ found.before.length ∧
      found.before.length ≤ text.length ∧
      (text.take found.before.length).reverse = found.before ∧
      text.drop found.before.length = found.text ∧
      (text.drop progress.before.length).take (found.before.length - progress.before.length) =
        found.skipped.reverse ∧
      StandsLongest catalog text found.before.length (String.ofList found.name) ∧
      ∀ place, progress.before.length ≤ place → place < found.before.length →
        ∀ name, ¬Stands catalog text place name := by
  obtain ⟨passed, hrest, hskipped, hbefore⟩ := exists_passed_of_searchNames hfound
  rw [List.append_nil] at hskipped
  have htext : found.before.reverse ++ found.text = text := by
    rw [text_of_searchNames hfound, hat.text_eq]
  have hlength : found.before.length = progress.before.length + passed.length := by
    rw [hbefore, List.length_append, List.length_reverse, Nat.add_comm]
  refine ⟨Nat.le.intro hlength.symm, ?_, ?_, ?_, ?_, ?_, ?_⟩
  · rw [← htext, List.length_append, List.length_reverse]
    exact Nat.le_add_right _ _
  · rw [← htext, ← List.length_reverse, List.take_left, List.reverse_reverse]
  · rw [← htext, ← List.length_reverse, List.drop_left]
  · rw [hat.rest_eq, hrest, hskipped, hlength, Nat.add_sub_cancel_left, List.take_left,
      List.reverse_reverse]
  · rw [← hat.text_eq]
    exact standsLongest_of_searchNames hfound
  · intro place hplace hpassed name
    rw [← hat.text_eq]
    exact not_stands_of_searchNames_eq_some hfound hplace hpassed name

/-- If a search finds nothing, no name stands from the place of the loop on. -/
theorem not_stands (hat : progress.IsAt text)
    (hnone : searchNames catalog.rewriter.names [] progress.before progress.rest = none)
    {place : Nat} (hplace : progress.before.length ≤ place) (name : String) :
    ¬Stands catalog text place name := by
  rw [← hat.text_eq]
  exact not_stands_of_searchNames_eq_none hnone hplace name

theorem replace (hat : progress.IsAt text)
    (hfound :
      searchNames catalog.rewriter.names [] progress.before progress.rest = some found)
    (code : List Char) : (progress.replace found code).IsAt text where
  text_eq := by
    simp only [Progress.replace, List.reverse_append, List.reverse_reverse]
    rw [List.append_assoc, name_of_searchNames hfound, text_of_searchNames hfound, hat.text_eq]
  kept := List.nil_prefix
  known := hat.known

theorem passBy (hat : progress.IsAt text)
    (hfound :
      searchNames catalog.rewriter.names [] progress.before progress.rest = some found)
    {first : Char} {rest : List Char} (htext : found.text = first :: rest) :
    (progress.passBy found first rest).IsAt text where
  text_eq := by
    rw [← hat.text_eq, ← text_of_searchNames hfound, htext]
    simp [Progress.passBy]
  kept := by
    obtain ⟨passed, -, hskipped, hbefore⟩ := exists_passed_of_searchNames hfound
    rw [List.append_nil] at hskipped
    simp only [Progress.passBy, hskipped, hbefore]
    exact List.cons_prefix_cons.mpr ⟨rfl, (List.prefix_append_right_inj _).mpr hat.kept⟩
  known := hat.known

/-- Whatever a turn goes on with is at a place of the same text. -/
theorem of_turn (hat : progress.IsAt text) (hturn : catalog.rewriter.turn progress = .goesOn next) :
    next.IsAt text := by
  have hturns := turnsTo catalog progress
  rw [hturn] at hturns
  cases hturns with
  | replaces hfound _ _ => exact hat.replace hfound _
  | passes hfound _ htext => exact hat.passBy hfound htext

end Progress.IsAt

end SelectorMangling.Rewriting
