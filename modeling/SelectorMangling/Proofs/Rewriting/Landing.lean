import SelectorMangling.Proofs.Rewriting.Delimiter
import SelectorMangling.Proofs.Rewriting.Token

/-!
# Where codes land

A rewritten text is what was kept of the original one, with codes that have landed in it.  What was
no candidate in the original text can be one now only because of a code: either a cataloged name
stands over the code, made up of it and of what stands around it, or the code has taken the front of
a route path away, so that the quotation mark behind it delimits a name.
-/

namespace SelectorMangling.Rewriting

open Extraction

/-- The code of a replacement at its place in the rewritten text. -/
structure Landing where
  offset : Nat
  replacement : Replacement

def Landing.stop (landing : Landing) : Nat := landing.offset + landing.replacement.code.length

/-- Where the codes of replacements land, if those from a place of the text on are carried out and
the rewritten text has an `offset` by then. -/
def landings (place offset : Nat) : List Replacement → List Landing
  | [] => []
  | replacement :: later =>
    let landing : Landing := ⟨offset + (replacement.start - place), replacement⟩
    landing :: landings replacement.stop landing.stop later

/-- A code that has landed in a rewritten text makes a name a candidate that was none. -/
inductive Wakes (catalog : Catalog) (written : List Char) (landing : Landing) : Prop
  /-- The name stands over the code. -/
  | covers {place : Nat} {name : String}
      (hdelimited : isDelimited (written.take place).reverse = true)
      (hstands : Stands catalog written place name) (hstart : place ≤ landing.offset)
      (hstop : landing.stop ≤ place + name.length)
  /-- The name stands behind a quotation mark that opened the value of a route path, before the
  replaced name gave way to the code. -/
  | releases {name : String} (hpath : "path".toList <:+ landing.replacement.name.toList)
      (hfollows : [':', '"'] <+: written.drop landing.stop)
      (hstands : Stands catalog written (landing.stop + 2) name)

variable {catalog : Catalog} {text front kept behind rest : List Char} {place : Nat}
  {last : Option Landing}

/-- The rewriting of a text has come to a place of it and has written `front`.  It is at the start
of the text, or just behind its last landing. -/
inductive Seam (catalog : Catalog) (text : List Char) : Nat → List Char → Option Landing → Prop
  | start : Seam catalog text 0 [] none
  | behind {front : List Char} {replacement : Replacement}
      (hreplacement : IsReplacement catalog text replacement) :
      Seam catalog text replacement.stop (front ++ replacement.code.toList)
        (some ⟨front.length, replacement⟩)

namespace IsReplacement

variable {replacement : Replacement} (hreplacement : IsReplacement catalog text replacement)

include hreplacement

/-- The text before the end of a replaced name. -/
theorem take_stop :
    text.take replacement.stop = text.take replacement.start ++ replacement.name.toList := by
  rw [Replacement.stop, ← String.length_toList]
  exact take_add_length hreplacement.standsLongest.occurs

theorem stop_le_length (hnamed : catalog.WellNamed) : replacement.stop ≤ text.length :=
  hreplacement.standsLongest.stop_le_length hnamed.empty_notMem

/-- No word ends where a replaced name begins. -/
theorem isWordSide_before (hnamed : catalog.WellNamed) :
    isWordSide (text.take replacement.start).getLast? = false := by
  have hstands := hreplacement.standsLongest.toStands
  obtain ⟨tail, htail⟩ := hstands.occurs
  have hstarts := hstands.starts
  rw [IsBoundaryAt, isBoundary, ← htail,
    isWordSide_head?_append (hnamed.begins _ hstands.cataloged)] at hstarts
  simpa using hstarts

/-- No word begins where a replaced name ends. -/
theorem isWordSide_behind (hnamed : catalog.WellNamed) :
    isWordSide (text.drop replacement.stop).head? = false := by
  have hstands := hreplacement.standsLongest.toStands
  exact (isBoundaryAt_iff (hnamed.isToken _ hstands.cataloged) hstands.occurs).mp hstands.ends

/-- What is kept before a replacement. -/
theorem exists_kept (hnamed : catalog.WellNamed) (hplace : place ≤ replacement.start) :
    ∃ kept, (text.drop place).take (replacement.start - place) = kept ∧
      place + kept.length = replacement.start ∧
      text.take replacement.start = text.take place ++ kept ∧
      text.drop place = kept ++ (replacement.name.toList ++ text.drop replacement.stop) := by
  refine ⟨_, rfl, ?_, ?_, drop_eq_append hplace hreplacement.standsLongest.occurs⟩
  · have hstop := hreplacement.stop_le_length hnamed
    rw [Replacement.stop] at hstop
    rw [List.length_take, List.length_drop]
    omega
  · rw [← List.take_add, Nat.add_sub_cancel' hplace]

end IsReplacement

namespace Seam

variable (hnamed : catalog.WellNamed) (hseam : Seam catalog text place front last)

include hnamed hseam

theorem length_take : (text.take place).length = place := by
  cases hseam with
  | start => rfl
  | behind hreplacement =>
    exact List.length_take_of_le (hreplacement.stop_le_length hnamed)

/-- What is written ends in a word exactly if the text before the place does. -/
theorem ends : front = [] ∧ text.take place = [] ∨
    isWordSide front.getLast? = true ∧ isWordSide (text.take place).getLast? = true := by
  cases hseam with
  | start => exact .inl ⟨rfl, rfl⟩
  | @behind front replacement hreplacement =>
    right
    have hcode := (hnamed.spelled.of_get? hreplacement.code_eq).isWordSide.2
    have hname := hnamed.ends hreplacement.standsLongest.cataloged
    rw [hreplacement.take_stop]
    exact ⟨isWordSide_getLast?_append hcode _, isWordSide_getLast?_append hname _⟩

theorem sides : isWordSide front.getLast? = isWordSide (text.take place).getLast? := by
  rcases hseam.ends hnamed with ⟨hfront, hbefore⟩ | ⟨hfront, hbefore⟩
  · rw [hfront, hbefore]
  · rw [hfront, hbefore]

theorem isClosed : IsClosed front ∧ IsClosed (text.take place) := by
  rcases hseam.ends hnamed with ⟨hfront, hbefore⟩ | ⟨hfront, hbefore⟩
  · exact ⟨.inl hfront, .inl hbefore⟩
  · exact ⟨.inr hfront, .inr hbefore⟩

/-- Where the text before a place ends in the front of a route path and what is written does not, a
name has given way that the front belonged to. -/
theorem exists_last_of_path {nearer : List Char}
    (hkept : nearer.reverse <+: text.drop place)
    (hpath : pathMember.tail <+: nearer ++ (text.take place).reverse)
    (hgone : ¬pathMember.tail <+: nearer ++ front.reverse) :
    nearer = [] ∧ ∃ landing, last = some landing ∧ front.length = landing.stop ∧
      "path".toList <:+ landing.replacement.name.toList := by
  cases hseam with
  | start => exact absurd hpath hgone
  | @behind front replacement hreplacement =>
    have hstands := hreplacement.standsLongest.toStands
    obtain rfl : nearer = [] := by
      by_contra hne
      obtain ⟨c, others, hnearer⟩ := List.exists_cons_of_ne_nil (mt List.reverse_eq_nil_iff.mp hne)
      -- Behind a replaced name no word character stands, so the route path cannot go on there.
      have hnext : (text.drop (replacement.start + replacement.name.length)).head? = some c := by
        obtain ⟨tail, htail⟩ := hkept
        rw [← Replacement.stop, ← htail, hnearer]
        rfl
      have hnone := hstands.isWord_eq_false (hnamed.isToken _ hstands.cataloged) hnext
      rcases List.prefix_or_prefix_of_prefix hpath (List.prefix_append nearer _) with
        hinside | hinside
      · exact hgone (hinside.trans (List.prefix_append _ _))
      · have hmem : c ∈ pathMember.tail :=
          hinside.subset (List.mem_reverse.mp (hnearer ▸ List.mem_cons_self))
        have hall : pathMember.tail.all isWord = true := by decide
        rw [List.all_eq_true.mp hall c hmem] at hnone
        contradiction
    refine ⟨rfl, _, rfl, ?_, ?_⟩
    · rw [List.length_append, String.length_toList]
      rfl
    · rw [List.nil_append, hreplacement.take_stop, List.reverse_append] at hpath
      rcases List.prefix_or_prefix_of_prefix hpath (List.prefix_append _ _) with hinside | hinside
      · exact List.reverse_prefix.mp hinside
      · rcases hnamed.isCompound _ hstands.cataloged with hmem | hmem
        · exact absurd (hinside.subset (List.mem_reverse.mpr hmem)) (by decide)
        · exact absurd (hinside.subset (List.mem_reverse.mpr hmem)) (by decide)

/-- A name that stands in a stretch of text that is kept is a candidate of the original text, or the
last code before it wakes it. -/
theorem isCandidate_or_wakes (hkept : text.drop place = kept ++ behind)
    (hrest : isWordSide rest.head? = isWordSide behind.head?) {offset : Nat} {name : String}
    (hfits : offset + name.length ≤ kept.length)
    (hdelimited :
      isDelimited ((front ++ kept ++ rest).take (front.length + offset)).reverse = true)
    (hstands : Stands catalog (front ++ kept ++ rest) (front.length + offset) name) :
    IsCandidate catalog text (place + offset) ∨
      ∃ landing, last = some landing ∧ Wakes catalog (front ++ kept ++ rest) landing := by
  have htext : text.take place ++ kept ++ behind = text := by
    rw [List.append_assoc, ← hkept, List.take_append_drop]
  have hplace := hseam.length_take hnamed
  have hsame := hstands.of_kept (hseam.sides hnamed) hrest hfits
  rw [htext, hplace] at hsame
  have hnear : ∀ left right : List Char,
      ((left ++ kept ++ right).take (left.length + offset)).reverse =
        (kept.take offset).reverse ++ left.reverse := by
    intro left right
    rw [List.append_assoc, List.take_length_add_append,
      List.take_append_of_le_length (by omega), List.reverse_append]
  obtain ⟨hfront, hbefore⟩ := hseam.isClosed hnamed
  rw [hnear] at hdelimited
  rcases isDelimited_of_kept hfront hbefore hdelimited with hstill | ⟨nearer, hnearer, hpath, hgone⟩
  · left
    rw [← hnear (text.take place) behind, htext, hplace] at hstill
    exact ⟨hstill, name, hsame⟩
  · right
    have htake : kept.take offset = nearer.reverse ++ [':', '"'] := by
      rw [← List.reverse_reverse (kept.take offset), hnearer]
      simp
    have hprefix : kept.take offset <+: kept := List.take_prefix _ _
    obtain ⟨rfl, landing, hlast, hstop, hname⟩ := hseam.exists_last_of_path hnamed
      (((htake ▸ List.prefix_append _ _).trans hprefix).trans (hkept ▸ List.prefix_append _ _))
      hpath hgone
    obtain rfl : offset = 2 := by
      have hlength := congrArg List.length htake
      simp only [List.length_take, List.reverse_nil, List.nil_append, List.length_cons,
        List.length_nil] at hlength
      omega
    refine ⟨landing, hlast, .releases hname ?_ (hstop ▸ hstands)⟩
    rw [← hstop, List.append_assoc, List.drop_left]
    exact (htake ▸ hprefix).trans (List.prefix_append _ _)

end Seam

theorem Landing.stop_mk_length (front : List Char) (replacement : Replacement) :
    Landing.stop ⟨front.length, replacement⟩ = (front ++ replacement.code.toList).length := by
  rw [List.length_append, String.length_toList]
  rfl

theorem landings_cons {replacement : Replacement} {later : List Replacement}
    (hlength : place + kept.length = replacement.start) :
    landings place front.length (replacement :: later) =
      ⟨(front ++ kept).length, replacement⟩ ::
        landings replacement.stop (front ++ kept ++ replacement.code.toList).length later := by
  have hoffset : front.length + (replacement.start - place) = (front ++ kept).length := by
    rw [List.length_append]
    omega
  rw [landings, hoffset, Landing.stop_mk_length]

theorem append_splice_cons {replacement : Replacement} {later : List Replacement}
    (hkept : (text.drop place).take (replacement.start - place) = kept) :
    front ++ splice text place (replacement :: later) =
      front ++ kept ++ replacement.code.toList ++ splice text replacement.stop later := by
  simp only [splice, hkept, List.append_assoc]

/-- What is written around a code is what stands around the name in its place. -/
structure LandsIn (text written : List Char) (landing : Landing) : Prop where
  occurs : landing.replacement.code.toList <+: written.drop landing.offset
  before : (written.take landing.offset).getLast? =
    (text.take landing.replacement.start).getLast?
  behind : (written.drop landing.stop).head? = (text.drop landing.replacement.stop).head?

/-- At the end of a replaced name the rewritten text goes on as the original one does. -/
theorem Greedy.head?_splice (hnamed : catalog.WellNamed) {replacement : Replacement}
    (hreplacement : IsReplacement catalog text replacement) {later : List Replacement}
    (hlater : Greedy catalog text replacement.stop later) :
    (splice text replacement.stop later).head? = (text.drop replacement.stop).head? := by
  cases hlater with
  | done => rfl
  | @next _ other others hplace _ hother _ =>
    have hstands := hother.standsLongest.toStands
    have hbehind := hreplacement.isWordSide_behind hnamed
    rw [drop_eq_append hplace hstands.occurs] at hbehind ⊢
    rw [splice]
    cases hkept : (text.drop replacement.stop).take (other.start - replacement.stop) with
    | nil =>
      rw [hkept, List.nil_append,
        isWordSide_head?_append (hnamed.begins _ hstands.cataloged)] at hbehind
      contradiction
    | cons c tail => rfl

theorem Greedy.landsIn (hnamed : catalog.WellNamed) {replacements : List Replacement}
    (hgreedy : Greedy catalog text place replacements)
    (hseam : Seam catalog text place front last) :
    ∀ landing ∈ landings place front.length replacements,
      landing.replacement ∈ replacements ∧
        LandsIn text (front ++ splice text place replacements) landing := by
  induction hgreedy generalizing front last with
  | done => simp [landings]
  | @next place replacement later hplace hfirst hreplacement hlater ih =>
    obtain ⟨kept, hkept, hlength, hbefore, -⟩ := hreplacement.exists_kept hnamed hplace
    have hnext : Seam catalog text replacement.stop (front ++ kept ++ replacement.code.toList)
        (some ⟨(front ++ kept).length, replacement⟩) := .behind hreplacement
    rw [landings_cons hlength, append_splice_cons hkept]
    refine List.forall_mem_cons.mpr ⟨⟨List.mem_cons_self, ?_, ?_, ?_⟩, ?_⟩
    · rw [List.append_assoc, List.drop_left]
      exact List.prefix_append _ _
    · rw [List.append_assoc, List.take_left, hbefore, List.getLast?_append, List.getLast?_append]
      cases hlast : kept.getLast? with
      | some c => rfl
      | none =>
        rcases hseam.ends hnamed with ⟨rfl, htake⟩ | ⟨-, htake⟩
        · rw [htake]
        · have hnone := hreplacement.isWordSide_before hnamed
          rw [hbefore, List.getLast?_append, hlast, Option.none_or, htake] at hnone
          contradiction
    · rw [Landing.stop_mk_length, List.drop_left]
      exact hlater.head?_splice hnamed hreplacement
    · intro landing hmem
      obtain ⟨hlater, hlands⟩ := ih hnext landing hmem
      exact ⟨List.mem_cons_of_mem _ hlater, hlands⟩

/-- A name that meets a code stands over all of it, since no word ends inside of a code. -/
theorem Stands.covers {written : List Char} {landing : Landing} {spot : Nat} {name : String}
    (hstands : Stands catalog written spot name)
    (hspelled : Code.IsSpelled landing.replacement.code)
    (hoccurs : landing.replacement.code.toList <+: written.drop landing.offset)
    (hmeets : landing.offset < spot + name.length) (hbefore : spot < landing.stop) :
    spot ≤ landing.offset ∧ landing.stop ≤ spot + name.length := by
  rw [Landing.stop, ← String.length_toList] at hbefore ⊢
  constructor
  · by_contra hinside
    exact not_isBoundaryAt_of_inside hspelled.isWord hoccurs (Nat.lt_of_not_le hinside) hbefore
      hstands.starts
  · by_contra hinside
    exact not_isBoundaryAt_of_inside hspelled.isWord hoccurs hmeets (Nat.lt_of_not_le hinside)
      hstands.ends

/-- A name that stands at a delimited place of a rewritten text, behind what is written already, is
woken by a code. -/
theorem Greedy.exists_wakes (hnamed : catalog.WellNamed) {replacements : List Replacement}
    (hgreedy : Greedy catalog text place replacements)
    (hseam : Seam catalog text place front last) {spot : Nat} {name : String}
    (hspot : front.length ≤ spot)
    (hdelimited :
      isDelimited ((front ++ splice text place replacements).take spot).reverse = true)
    (hstands : Stands catalog (front ++ splice text place replacements) spot name) :
    ∃ landing ∈ last.toList ++ landings place front.length replacements,
      Wakes catalog (front ++ splice text place replacements) landing := by
  induction hgreedy generalizing front last with
  | @done place hnone =>
    obtain ⟨offset, rfl⟩ := Nat.exists_eq_add_of_le hspot
    have hfits : offset + name.length ≤ (text.drop place).length := by
      have hstop := hstands.stop_le_length hnamed.empty_notMem
      rw [splice, List.length_append] at hstop
      omega
    rw [splice, ← List.append_nil (front ++ text.drop place)] at hdelimited hstands ⊢
    rcases hseam.isCandidate_or_wakes hnamed (List.append_nil _).symm rfl hfits hdelimited hstands
      with hcandidate | ⟨landing, hlast, hwakes⟩
    · exact absurd hcandidate (hnone _ (Nat.le_add_right _ _))
    · exact ⟨landing, by simp [hlast], hwakes⟩
  | @next place replacement later hplace hfirst hreplacement hlater ih =>
    obtain ⟨kept, hkept, hlength, hbefore, hdrop⟩ := hreplacement.exists_kept hnamed hplace
    have hnext : Seam catalog text replacement.stop (front ++ kept ++ replacement.code.toList)
        (some ⟨(front ++ kept).length, replacement⟩) := .behind hreplacement
    rw [append_splice_cons hkept] at hdelimited hstands ⊢
    rw [landings_cons hlength]
    have hspelled := hnamed.spelled.of_get? hreplacement.code_eq
    have hpos := hstands.name_length_pos hnamed.empty_notMem
    by_cases hbefore : spot + name.length ≤ (front ++ kept).length
    · -- The name stands in what is kept before the code.
      obtain ⟨offset, rfl⟩ := Nat.exists_eq_add_of_le hspot
      rw [List.length_append] at hbefore
      have hsides : isWordSide (replacement.code.toList ++
            splice text replacement.stop later).head? =
          isWordSide (replacement.name.toList ++ text.drop replacement.stop).head? := by
        rw [isWordSide_head?_append hspelled.isWordSide.1,
          isWordSide_head?_append (hnamed.begins _ hreplacement.standsLongest.cataloged)]
      rw [List.append_assoc (front ++ kept)] at hdelimited hstands ⊢
      rcases hseam.isCandidate_or_wakes hnamed hdrop hsides (by omega) hdelimited hstands with
        hcandidate | ⟨landing, hlast, hwakes⟩
      · exact absurd hcandidate (hfirst _ (Nat.le_add_right _ _) (by omega))
      · exact ⟨landing, by simp [hlast], hwakes⟩
    · by_cases hbehind : (front ++ kept ++ replacement.code.toList).length ≤ spot
      · obtain ⟨landing, hmem, hwakes⟩ := ih hnext hbehind hdelimited hstands
        exact ⟨landing, List.mem_append_right _ (by simpa using hmem), hwakes⟩
      · let landing : Landing := ⟨(front ++ kept).length, replacement⟩
        have hoccurs : replacement.code.toList <+:
            (front ++ kept ++ replacement.code.toList ++ splice text replacement.stop later).drop
              landing.offset := by
          rw [List.append_assoc, List.drop_left]
          exact List.prefix_append _ _
        rw [← Landing.stop_mk_length, Nat.not_le] at hbehind
        obtain ⟨hstart, hstop⟩ :=
          hstands.covers hspelled hoccurs (Nat.lt_of_not_le hbefore) hbehind
        exact ⟨landing, List.mem_append_right _ List.mem_cons_self,
          .covers hdelimited hstands hstart hstop⟩

end SelectorMangling.Rewriting
