import SelectorMangling.Proofs.Rewriting.Turn

/-!
# Greedy replacement

Which occurrences of names a rewritten text replaces.  The choice is told without the loop of the
rewriter: from left to right, the first candidate that does not lie before the end of the previous
replacement is replaced, and of the names that stand there the longest.  Candidates are places of
the original text, so that codes never count.
-/

namespace SelectorMangling.Rewriting

/-- A name to be replaced by a code, and the place where it begins. -/
@[ext]
structure Replacement where
  start : Nat
  name : String
  code : String
deriving DecidableEq, Repr

/-- The place behind the name. -/
def Replacement.stop (replacement : Replacement) : Nat :=
  replacement.start + replacement.name.length

/-- The text from a place on with replacements carried out.  Everything between them is kept. -/
def splice (text : List Char) (place : Nat) : List Replacement → List Char
  | [] => text.drop place
  | replacement :: later =>
    (text.drop place).take (replacement.start - place) ++ replacement.code.toList ++
      splice text replacement.stop later

/-- A replacement of the longest name at a candidate by the code of that name. -/
structure IsReplacement (catalog : Catalog) (text : List Char) (replacement : Replacement) :
    Prop where
  candidate : IsCandidate catalog text replacement.start
  standsLongest : StandsLongest catalog text replacement.start replacement.name
  code_eq : catalog.get? replacement.name = some replacement.code

/-- The replacements from a place on are chosen greedily from left to right. -/
inductive Greedy (catalog : Catalog) (text : List Char) : Nat → List Replacement → Prop
  | done {place : Nat} (hnone : ∀ later, place ≤ later → ¬IsCandidate catalog text later) :
      Greedy catalog text place []
  | next {place : Nat} {replacement : Replacement} {later : List Replacement}
      (hplace : place ≤ replacement.start)
      (hfirst : ∀ between, place ≤ between → between < replacement.start →
        ¬IsCandidate catalog text between)
      (hreplacement : IsReplacement catalog text replacement)
      (hlater : Greedy catalog text replacement.stop later) :
      Greedy catalog text place (replacement :: later)

variable {catalog : Catalog} {text : List Char} {place : Nat}

/-- Only one replacement takes the first candidate from a place on. -/
theorem IsReplacement.eq_of_first {left right : Replacement}
    (hleft : IsReplacement catalog text left) (hright : IsReplacement catalog text right)
    (hplace : place ≤ left.start) (hother : place ≤ right.start)
    (hfirst : ∀ between, place ≤ between → between < left.start →
      ¬IsCandidate catalog text between)
    (hfirstOther : ∀ between, place ≤ between → between < right.start →
      ¬IsCandidate catalog text between) : left = right := by
  have hstart : left.start = right.start := by
    rcases Nat.lt_trichotomy left.start right.start with hlt | heq | hlt
    · exact absurd hleft.candidate (hfirstOther _ hplace hlt)
    · exact heq
    · exact absurd hright.candidate (hfirst _ hother hlt)
  -- The candidates are the same, hence so are the longest names and their codes.
  have hlongest := hstart ▸ hright.standsLongest
  have hname : left.name = right.name :=
    hleft.standsLongest.toStands.eq_of_length_eq hlongest.toStands
      (Nat.le_antisymm (hlongest.longest _ hleft.standsLongest.toStands)
        (hleft.standsLongest.longest _ hlongest.toStands))
  have hcode : left.code = right.code := by
    have hget := hleft.code_eq
    rw [hname, hright.code_eq] at hget
    exact (Option.some.inj hget).symm
  ext
  · exact hstart
  · rw [hname]
  · rw [hcode]

namespace Greedy

/-- Places that are no candidates make no difference. -/
theorem skip {later : Nat} {replacements : List Replacement} (hle : place ≤ later)
    (hskipped : ∀ between, place ≤ between → between < later → ¬IsCandidate catalog text between)
    (hgreedy : Greedy catalog text later replacements) :
    Greedy catalog text place replacements := by
  cases hgreedy with
  | done hnone =>
    constructor
    intro spot hplace
    rcases Nat.lt_or_ge spot later with hlt | hge
    · exact hskipped spot hplace hlt
    · exact hnone spot hge
  | next hstart hfirst hreplacement hlater =>
    apply Greedy.next (Nat.le_trans hle hstart) _ hreplacement hlater
    intro spot hplace hspot
    rcases Nat.lt_or_ge spot later with hlt | hge
    · exact hskipped spot hplace hlt
    · exact hfirst spot hge hspot

/-- What is replaced from a place on does not change while the place moves up to the first
candidate. -/
theorem advance {later : Nat} {replacements : List Replacement} (hle : place ≤ later)
    (hskipped : ∀ between, place ≤ between → between < later → ¬IsCandidate catalog text between)
    (hgreedy : Greedy catalog text place replacements) :
    Greedy catalog text later replacements := by
  cases hgreedy with
  | done hnone => exact .done fun spot hspot => hnone spot (Nat.le_trans hle hspot)
  | @next _ replacement others hstart hfirst hreplacement hlater =>
    have hbehind : later ≤ replacement.start := by
      rcases Nat.lt_or_ge replacement.start later with hlt | hge
      · exact absurd hreplacement.candidate (hskipped _ hstart hlt)
      · exact hge
    exact .next hbehind (fun spot hspot => hfirst spot (Nat.le_trans hle hspot)) hreplacement
      hlater

/-- The first replacement is the one of the first candidate. -/
theorem exists_cons {replacement : Replacement} {replacements : List Replacement}
    (hgreedy : Greedy catalog text place replacements) (hplace : place ≤ replacement.start)
    (hfirst : ∀ between, place ≤ between → between < replacement.start →
      ¬IsCandidate catalog text between)
    (hreplacement : IsReplacement catalog text replacement) :
    ∃ later, replacements = replacement :: later ∧
      Greedy catalog text replacement.stop later := by
  cases hgreedy with
  | done hnone => exact absurd hreplacement.candidate (hnone _ hplace)
  | @next _ other others hother hfirstOther hotherReplacement hlater =>
    obtain rfl := hreplacement.eq_of_first hotherReplacement hplace hother hfirst hfirstOther
    exact ⟨others, rfl, hlater⟩

/-- At most one list of replacements is greedy. -/
theorem unique {left right : List Replacement} (hleft : Greedy catalog text place left)
    (hright : Greedy catalog text place right) : left = right := by
  induction hleft generalizing right with
  | done hnone =>
    cases hright with
    | done => rfl
    | next hplace _ hreplacement => exact absurd hreplacement.candidate (hnone _ hplace)
  | @next place replacement later hplace hfirst hreplacement _ ih =>
    obtain ⟨others, rfl, hothers⟩ := hright.exists_cons hplace hfirst hreplacement
    rw [ih hothers]

theorem le_start {replacements : List Replacement}
    (hgreedy : Greedy catalog text place replacements) :
    ∀ replacement ∈ replacements, place ≤ replacement.start := by
  induction hgreedy with
  | done => simp
  | @next place replacement later hplace _ _ _ ih =>
    intro other hmem
    rcases List.mem_cons.mp hmem with rfl | hmem
    · exact hplace
    · have hle := ih other hmem
      simp only [Replacement.stop] at hle
      omega

/-- Replacements do not overlap. -/
theorem pairwise_disjoint {replacements : List Replacement}
    (hgreedy : Greedy catalog text place replacements) :
    replacements.Pairwise fun earlier later => earlier.stop ≤ later.start := by
  induction hgreedy with
  | done => exact .nil
  | next _ _ _ hlater ih => exact .cons hlater.le_start ih

theorem isReplacement {replacements : List Replacement}
    (hgreedy : Greedy catalog text place replacements) :
    ∀ replacement ∈ replacements, IsReplacement catalog text replacement := by
  induction hgreedy with
  | done => simp
  | next _ _ hreplacement _ ih => exact List.forall_mem_cons.mpr ⟨hreplacement, ih⟩

/-- Every candidate is replaced or lies inside a replaced occurrence that begins earlier. -/
theorem exists_covering {replacements : List Replacement}
    (hgreedy : Greedy catalog text place replacements) {candidate : Nat}
    (hplace : place ≤ candidate) (hcandidate : IsCandidate catalog text candidate) :
    ∃ replacement ∈ replacements, replacement.start = candidate ∨
      replacement.start < candidate ∧ candidate < replacement.stop := by
  induction hgreedy with
  | done hnone => exact absurd hcandidate (hnone candidate hplace)
  | @next _ replacement later _ hfirst _ _ ih =>
    rcases Nat.lt_or_ge candidate replacement.start with hbefore | hstart
    · exact absurd hcandidate (hfirst candidate hplace hbefore)
    · rcases Nat.lt_or_ge candidate replacement.stop with hinside | hbehind
      · refine ⟨replacement, List.mem_cons_self, ?_⟩
        rcases Nat.eq_or_lt_of_le hstart with heq | hlt
        · exact .inl heq
        · exact .inr ⟨hlt, hinside⟩
      · obtain ⟨other, hmem, hcovers⟩ := ih hbehind
        exact ⟨other, List.mem_cons_of_mem _ hmem, hcovers⟩

/-- Before the first replacement the text is kept. -/
theorem splice_eq_append {later : Nat} {replacements : List Replacement} (hle : place ≤ later)
    (hgreedy : Greedy catalog text later replacements) :
    splice text place replacements =
      (text.drop place).take (later - place) ++ splice text later replacements := by
  have hdrop : (text.drop place).drop (later - place) = text.drop later := by
    rw [List.drop_drop, Nat.add_sub_cancel' hle]
  cases hgreedy with
  | done => rw [splice, splice, ← hdrop, List.take_append_drop]
  | @next _ replacement others hstart _ _ _ =>
    have hsplit : replacement.start - place =
        (later - place) + (replacement.start - later) := by omega
    simp only [splice, hsplit, List.take_add, hdrop, List.append_assoc]

/-- No greedy replacement takes out an empty name: behind its code the same place would be the first
candidate again, and so on without an end. -/
theorem name_ne_empty {replacements : List Replacement}
    (hgreedy : Greedy catalog text place replacements) :
    ∀ replacement ∈ replacements, replacement.name ≠ "" := by
  induction hgreedy with
  | done => simp
  | @next _ replacement later _ _ hreplacement hlater ih =>
    refine List.forall_mem_cons.mpr ⟨?_, ih⟩
    intro hempty
    have hstop : replacement.stop = replacement.start := by simp [Replacement.stop, hempty]
    obtain ⟨others, rfl, -⟩ := hlater.exists_cons (Nat.le_of_eq hstop)
      (fun between hle hlt => absurd (hstop ▸ hle) (Nat.not_le.mpr hlt)) hreplacement
    exact ih replacement List.mem_cons_self hempty

end Greedy

/-! ## Greedy replacement and the loop -/

/-- The replacement of a name that a search has found. -/
def Replacement.ofOccurrence (found : Occurrence) (code : String) : Replacement :=
  ⟨found.before.length, String.ofList found.name, code⟩

/-- Behind a code the loop is behind the name that it stands for. -/
theorem Progress.length_before_replace (progress : Progress) (found : Occurrence)
    (code : String) : (progress.replace found code.toList).before.length =
      (Replacement.ofOccurrence found code).stop := by
  simp [replace, Replacement.ofOccurrence, Replacement.stop, Nat.add_comm]

namespace Progress.IsAt

variable {progress : Progress} {found : Occurrence} (hat : progress.IsAt text)
  (hfound : searchNames catalog.rewriter.names [] progress.before progress.rest = some found)

include hat hfound

/-- No place that the search passes by is a candidate. -/
theorem not_isCandidate {between : Nat} (hle : progress.before.length ≤ between)
    (hlt : between < found.before.length) : ¬IsCandidate catalog text between := by
  obtain ⟨-, -, -, -, -, -, hnone⟩ := hat.of_searchNames hfound
  rintro ⟨-, name, hname⟩
  exact hnone between hle hlt name hname

/-- A name that is found behind a delimiter is to be replaced. -/
theorem isReplacement (hdelimited : isDelimited found.before = true) {code : String}
    (hcode : catalog.get? (String.ofList found.name) = some code) :
    IsReplacement catalog text (.ofOccurrence found code) := by
  obtain ⟨-, -, htake, -, -, hlongest, -⟩ := hat.of_searchNames hfound
  rw [← htake] at hdelimited
  exact ⟨⟨hdelimited, _, hlongest.toStands⟩, hlongest, hcode⟩

/-- A name that is found without a delimiter before it is not to be replaced. -/
theorem not_isCandidate_of_passed (hpassed : isDelimited found.before = false) {between : Nat}
    (hle : progress.before.length ≤ between) (hlt : between < found.before.length + 1) :
    ¬IsCandidate catalog text between := by
  obtain ⟨-, -, htake, -, -, -, -⟩ := hat.of_searchNames hfound
  rcases Nat.lt_or_eq_of_le (Nat.le_of_lt_succ hlt) with hbefore | rfl
  · exact hat.not_isCandidate hfound hle hbefore
  · rintro ⟨hdelimited, -⟩
    rw [htake, hpassed] at hdelimited
    contradiction

end Progress.IsAt

/-- What the loop writes in the end is the rest of the text with its greedy replacements carried
out, and nothing stands at the end of the text. -/
theorem greedy_of_finish {progress last : Progress}
    (hfinish : catalog.rewriter.finish progress = some last) (hat : progress.IsAt text) :
    ¬Stands catalog text text.length "" ∧
      ∃ replacements, Greedy catalog text progress.before.length replacements ∧
        last.text = (progress.kept ++ progress.written).reverse ++
          splice text progress.before.length replacements := by
  revert hat
  refine Rewriter.finish.partial_correctness catalog.rewriter
    (fun progress last => progress.IsAt text →
      ¬Stands catalog text text.length "" ∧
        ∃ replacements, Greedy catalog text progress.before.length replacements ∧
          last.text = (progress.kept ++ progress.written).reverse ++
            splice text progress.before.length replacements)
    ?_ progress last hfinish
  clear hfinish progress last
  intro finish ih progress last hlast hat
  have hturns := turnsTo catalog progress
  cases hturn : catalog.rewriter.turn progress with
  | ends =>
    rw [hturn] at hlast hturns
    obtain rfl : progress = last := Option.some.inj hlast
    cases hturns with
    | ends hnone =>
      have hstands : ∀ later, progress.before.length ≤ later → ∀ name,
          ¬Stands catalog text later name := fun later hlater => hat.not_stands hnone hlater
      refine ⟨hstands _ hat.place_le "", [], .done ?_, ?_⟩
      · rintro later hlater ⟨-, name, hname⟩
        exact hstands later hlater name hname
      · rw [Progress.text, splice, hat.rest_eq]
  | goesOn next =>
    rw [hturn] at hlast
    obtain ⟨hend, later, hlater, htext⟩ := ih next last hlast (hat.of_turn hturn)
    rw [hturn] at hturns
    refine ⟨hend, ?_⟩
    cases hturns with
    | @replaces found code hfound hdelimited hcode =>
      obtain ⟨hplace, -, -, -, hskipped, -, -⟩ := hat.of_searchNames hfound
      rw [Progress.length_before_replace] at hlater htext
      refine ⟨.ofOccurrence found code :: later,
        .next hplace (fun _ => hat.not_isCandidate hfound)
          (hat.isReplacement hfound hdelimited hcode) hlater, ?_⟩
      rw [htext, splice, Replacement.ofOccurrence, hskipped]
      simp [Progress.replace]
    | @passes found first rest hfound hpassed hrest =>
      obtain ⟨hplace, -, -, hdrop, hskipped, -, -⟩ := hat.of_searchNames hfound
      have hle : progress.before.length ≤ (progress.passBy found first rest).before.length :=
        Nat.le_succ_of_le hplace
      refine ⟨later, hlater.skip hle fun _ => hat.not_isCandidate_of_passed hfound hpassed, ?_⟩
      have hkept : (text.drop progress.before.length).take
          ((progress.passBy found first rest).before.length - progress.before.length) =
            found.skipped.reverse ++ [first] := by
        rw [Progress.passBy, List.length_cons, Nat.succ_sub hplace, List.take_add_one, hskipped,
          List.getElem?_drop, Nat.add_sub_cancel' hplace, ← List.head?_drop, hdrop, hrest]
        rfl
      rw [htext, hlater.splice_eq_append hle, hkept]
      simp [Progress.passBy]
  | fails =>
    rw [hturn] at hlast
    contradiction

/-- Where the replacements from a place on can be chosen greedily, and nothing stands at the end of
the text, the loop comes to an end. -/
theorem exists_finish_of_greedy {replacements : List Replacement} {progress : Progress}
    (hgreedy : Greedy catalog text progress.before.length replacements)
    (hend : ¬Stands catalog text text.length "") (hat : progress.IsAt text) :
    ∃ last, catalog.rewriter.finish progress = some last := by
  induction hsize : replacements.length + (text.length - progress.before.length)
    using Nat.strongRecOn generalizing replacements progress with
  | ind size ih =>
    subst hsize
    rw [Rewriter.finish]
    have hturns := turnsTo catalog progress
    cases hturn : catalog.rewriter.turn progress with
    | ends => exact ⟨progress, rfl⟩
    | goesOn next =>
      have hnext := hat.of_turn hturn
      rw [hturn] at hturns
      cases hturns with
      | @replaces found code hfound hdelimited hcode =>
        obtain ⟨hplace, -⟩ := hat.of_searchNames hfound
        obtain ⟨later, rfl, hlater⟩ := hgreedy.exists_cons hplace
          (fun _ => hat.not_isCandidate hfound) (hat.isReplacement hfound hdelimited hcode)
        have hle : progress.before.length ≤ (Replacement.ofOccurrence found code).stop :=
          Nat.le_add_right_of_le hplace
        rw [← progress.length_before_replace] at hlater hle
        refine ih _ ?_ hlater hnext rfl
        rw [List.length_cons]
        omega
      | @passes found first rest hfound hpassed hrest =>
        obtain ⟨hplace, hwithin, -, hdrop, -⟩ := hat.of_searchNames hfound
        have hlt : found.before.length < text.length := by
          have hlength := congrArg List.length hdrop
          rw [hrest, List.length_drop, List.length_cons] at hlength
          omega
        have hlater := hgreedy.advance (Nat.le_succ_of_le hplace)
          fun _ => hat.not_isCandidate_of_passed hfound hpassed
        refine ih _ ?_ hlater hnext rfl
        rw [Progress.passBy, List.length_cons]
        omega
    | fails =>
      rw [hturn] at hturns
      cases hturns with
      | @fails found hfound hpassed hrest =>
        obtain ⟨-, hwithin, -, hdrop, -, hlongest, -⟩ := hat.of_searchNames hfound
        have hplace : found.before.length = text.length := by
          rw [hrest, List.drop_eq_nil_iff] at hdrop
          exact Nat.le_antisymm hwithin hdrop
        have hname : found.name = [] := by
          have hname := name_of_searchNames hfound
          rw [hrest, List.append_eq_nil_iff] at hname
          exact hname.1
        have hstands := hlongest.toStands
        rw [hplace, hname] at hstands
        exact absurd hstands hend

/-- A text is rewritten to another one exactly if that is the text with greedy replacements carried
out, and the empty name does not stand at its end. -/
theorem rewrite_eq_some_iff {catalog : Catalog} {text new : String} :
    catalog.rewrite text = some new ↔
      ¬Stands catalog text.toList text.length "" ∧
        ∃ replacements, Greedy catalog text.toList 0 replacements ∧
          new = String.ofList (splice text.toList 0 replacements) := by
  have hstart := Progress.IsAt.start text.toList
  rw [← String.length_toList, Catalog.rewrite, Rewriter.rewrite, Option.map_eq_some_iff]
  constructor
  · rintro ⟨last, hlast, rfl⟩
    obtain ⟨hend, replacements, hgreedy, htext⟩ := greedy_of_finish hlast hstart
    exact ⟨hend, replacements, hgreedy, by rw [htext]; rfl⟩
  · rintro ⟨hend, replacements, hgreedy, rfl⟩
    obtain ⟨last, hlast⟩ := exists_finish_of_greedy hgreedy hend hstart
    refine ⟨last, hlast, ?_⟩
    obtain ⟨-, others, hothers, htext⟩ := greedy_of_finish hlast hstart
    rw [htext, hothers.unique hgreedy]
    rfl

/-- If no name is empty, the replacements from any place on can be chosen greedily. -/
theorem exists_greedy (hnames : "" ∉ catalog.names) (text : List Char) (place : Nat)
    (hplace : place ≤ text.length) : ∃ replacements, Greedy catalog text place replacements := by
  let progress : Progress := { before := (text.take place).reverse, rest := text.drop place }
  have hat : progress.IsAt text := ⟨by simp [progress], List.nil_prefix, rfl⟩
  have hbefore : progress.before.length = place := by simp [progress, hplace]
  obtain ⟨last, hlast⟩ := exists_finish hnames progress
  obtain ⟨-, replacements, hgreedy, -⟩ := greedy_of_finish hlast hat
  exact ⟨replacements, hbefore ▸ hgreedy⟩

/-- If no name is empty, every text is rewritten, to the text with its greedy replacements carried
out. -/
theorem exists_greedy_rewrite (hnames : "" ∉ catalog.names) (text : String) :
    ∃ replacements, Greedy catalog text.toList 0 replacements ∧
      catalog.rewrite text = some (String.ofList (splice text.toList 0 replacements)) := by
  obtain ⟨replacements, hgreedy⟩ := exists_greedy hnames text.toList 0 (Nat.zero_le _)
  have hend : ¬Stands catalog text.toList text.length "" := fun hstands =>
    hnames hstands.cataloged
  exact ⟨replacements, hgreedy, rewrite_eq_some_iff.mpr ⟨hend, replacements, hgreedy, rfl⟩⟩

/-- A catalog with the empty name does not rewrite a text that ends with a word: the name stands at
the end, where it is neither delimited nor can be passed by. -/
theorem rewrite_eq_none_of_word {text : String} (hempty : "" ∈ catalog.names)
    (hword : isWordSide text.toList.getLast? = true) : catalog.rewrite text = none := by
  have hboundary : IsBoundaryAt text.toList text.length := by
    rw [← String.length_toList, IsBoundaryAt, List.take_length, List.drop_length, isBoundary, hword]
    rfl
  have hstands : Stands catalog text.toList text.length "" :=
    ⟨hempty, List.nil_prefix, hboundary, hboundary⟩
  rw [Option.eq_none_iff_forall_ne_some]
  intro new hnew
  exact (rewrite_eq_some_iff.mp hnew).1 hstands

/-- A catalog does not rewrite a text whose first candidate has the empty name only: behind its code
the loop finds it again. -/
theorem rewrite_eq_none_of_first {text : String} {place : Nat}
    (hdelimited : isDelimited (text.toList.take place).reverse = true)
    (hlongest : StandsLongest catalog text.toList place "")
    (hfirst : ∀ earlier, earlier < place → ¬IsCandidate catalog text.toList earlier) :
    catalog.rewrite text = none := by
  obtain ⟨code, hcode⟩ := Catalog.exists_get?_of_mem_names hlongest.cataloged
  have hreplacement : IsReplacement catalog text.toList ⟨place, "", code⟩ :=
    ⟨⟨hdelimited, _, hlongest.toStands⟩, hlongest, hcode⟩
  rw [Option.eq_none_iff_forall_ne_some]
  intro new hnew
  obtain ⟨-, replacements, hgreedy, -⟩ := rewrite_eq_some_iff.mp hnew
  obtain ⟨later, rfl, -⟩ :=
    hgreedy.exists_cons (Nat.zero_le _) (fun earlier _ => hfirst earlier) hreplacement
  exact hgreedy.name_ne_empty _ List.mem_cons_self rfl

/-- Rewriting carries out the greedy replacements and keeps everything else.  The replacements are
determined by the original text, they do not overlap, each puts the code of the longest name at a
candidate in the place of that name, and no candidate is left out except inside a replaced
occurrence that begins before it. -/
theorem rewrite_carries_out_greedy (catalog : Catalog) (hnames : "" ∉ catalog.names)
    (text : String) :
    ∃ replacements,
      Greedy catalog text.toList 0 replacements ∧
      (∀ others, Greedy catalog text.toList 0 others → others = replacements) ∧
      catalog.rewrite text = some (String.ofList (splice text.toList 0 replacements)) ∧
      replacements.Pairwise (fun earlier later => earlier.stop ≤ later.start) ∧
      (∀ replacement ∈ replacements, IsReplacement catalog text.toList replacement) ∧
      ∀ place, IsCandidate catalog text.toList place →
        ∃ replacement ∈ replacements, replacement.start = place ∨
          replacement.start < place ∧ place < replacement.stop := by
  obtain ⟨replacements, hgreedy, hrewritten⟩ := exists_greedy_rewrite hnames text
  exact ⟨replacements, hgreedy, fun others hothers => hothers.unique hgreedy, hrewritten,
    hgreedy.pairwise_disjoint, hgreedy.isReplacement,
    fun place hcandidate => hgreedy.exists_covering (Nat.zero_le _) hcandidate⟩

/-- A catalog in which one name begins another one, and in which a name that never follows a
delimiter has a third one inside it. -/
def nestedNames : Catalog where
  entries := [("btn", "a0"), ("btn-primary", "b1"), ("x.btn", "c")]
  count := 3

theorem rewrite_nestedNames_greedy :
    "" ∉ nestedNames.names ∧
      ∃ replacements,
        Greedy nestedNames "x.btn btn-primary".toList 0 replacements ∧
        nestedNames.rewrite "x.btn btn-primary" =
          some (String.ofList (splice "x.btn btn-primary".toList 0 replacements)) :=
  have hnames : "" ∉ nestedNames.names := by decide
  have ⟨replacements, hgreedy, _, hrewritten, _⟩ :=
    rewrite_carries_out_greedy nestedNames hnames "x.btn btn-primary"
  ⟨hnames, replacements, hgreedy, hrewritten⟩

end SelectorMangling.Rewriting
