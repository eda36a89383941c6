import SelectorMangling.Proofs.Extraction.Beginning

/-!
# How short candidates can be

A tail has at least two characters, and a separator stands before it.  Letters stand before that, or
the prefix of a framework selector.  So candidates have four characters or more, unless a prefix is
empty.
-/

namespace SelectorMangling

namespace Extraction

/-- The fewest characters of a candidate: one, a separator, and a tail of two. -/
def shortestCandidate : Nat := 4

theorem length_of_tail? {isAllowed mayEnd : Char → Bool} {text tail : List Char}
    (htail : tail? isAllowed mayEnd text = some tail) : 2 ≤ tail.length := by
  simp only [tail?] at htail
  split at htail
  · contradiction
  · next hlong =>
    obtain rfl := Option.some.inj htail
    exact Nat.not_lt.mp hlong

theorem length_pos_of_separator? {text separator : List Char}
    (hseparator : separator? text = some separator) : 0 < separator.length := by
  have hcompound := isCompound_of_separator? hseparator
  rcases hcompound with hhyphen | hunderscore
  · exact List.length_pos_of_mem hhyphen
  · exact List.length_pos_of_mem hunderscore

theorem length_of_className? {text name : List Char} (hname : className? text = some name) :
    shortestCandidate ≤ name.length := by
  simp only [className?] at hname
  split at hname
  · contradiction
  · next hletters =>
    obtain ⟨separator, hseparator, hrest⟩ := Option.bind_eq_some_iff.mp hname
    obtain ⟨tail, htail, hsome⟩ := Option.bind_eq_some_iff.mp hrest
    obtain rfl := Option.some.inj hsome
    have hblock : 0 < (text.takeWhile isLetter).length :=
      List.length_pos_iff.mpr (mt List.isEmpty_iff.mpr hletters)
    have hmiddle := length_pos_of_separator? hseparator
    have hend := length_of_tail? htail
    simp only [List.length_append, shortestCandidate]
    omega

theorem length_of_propertyName? {text name : List Char}
    (hname : propertyName? text = some name) : shortestCandidate ≤ name.length := by
  simp only [propertyName?] at hname
  split at hname
  · split at hname
    · contradiction
    · next hform =>
      split at hname
      · obtain rfl := Option.some.inj hname
        simp only [Bool.or_eq_true, not_or, decide_eq_true_eq] at hform
        have hblock : 0 < (text.takeWhile isLetter).length :=
          List.length_pos_iff.mpr (mt List.isEmpty_iff.mpr hform.1.1)
        have hend := Nat.not_lt.mp hform.1.2
        simp only [List.length_append, List.length_cons, shortestCandidate]
        omega
      · contradiction
  · contradiction

theorem length_of_stemmedSelector? {text stem name : List Char} (hstem : stem ≠ [])
    (hname : stemmedSelector? text stem = some name) : shortestCandidate ≤ name.length := by
  simp only [stemmedSelector?] at hname
  split at hname
  · obtain ⟨tail, htail, rfl⟩ := Option.map_eq_some_iff.mp hname
    have hfront := List.length_pos_iff.mpr hstem
    have hend := length_of_tail? htail
    simp only [List.length_append, List.length_singleton, shortestCandidate]
    omega
  · contradiction

end Extraction

/-- Candidates are not short if there are prefixes of framework selectors and none is empty. -/
theorem Rules.length_of_mem_candidates {rules : Rules} {kind : SourceKind} {content name : String}
    (hne : rules.stems ≠ []) (hstems : "" ∉ rules.stems)
    (hname : name ∈ rules.candidates kind content) :
    Extraction.shortestCandidate ≤ name.length := by
  rw [← String.length_toList]
  rcases exists_of_mem_candidates_of_ne_nil hne hname with
    ⟨text, hfound⟩ | ⟨text, hfound⟩ | ⟨stem, hstem, text, hfound⟩
  · exact Extraction.length_of_className? hfound
  · exact Extraction.length_of_propertyName? hfound
  · apply Extraction.length_of_stemmedSelector? _ hfound
    rw [ne_eq, String.toList_eq_nil_iff]
    rintro rfl
    exact hstems hstem

end SelectorMangling
