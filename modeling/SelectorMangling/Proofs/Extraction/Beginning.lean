import Mathlib.Data.Bool.Basic
import SelectorMangling.Proofs.Extraction.Token

/-!
# Candidates begin with words

Class names and custom properties begin with a letter.  Framework selectors begin as their prefixes
do, so that all candidates begin with a word character where the prefixes do.
-/

namespace SelectorMangling

namespace Extraction

open Rewriting

/-- A name whose front is a run of letters begins with a letter. -/
theorem isWordSide_head?_of_letters {text tail : List Char}
    (hletters : (text.takeWhile isLetter).isEmpty = false) :
    isWordSide (text.takeWhile isLetter ++ tail).head? = true := by
  cases hblock : text.takeWhile isLetter with
  | nil => simp [hblock] at hletters
  | cons first others =>
    have hmem : first ∈ text.takeWhile isLetter := hblock ▸ List.mem_cons_self
    exact isWord_of_isLetter (List.mem_takeWhile_imp hmem)

theorem isWordSide_head?_of_className? {text name : List Char}
    (hname : className? text = some name) : isWordSide name.head? = true := by
  simp only [className?] at hname
  split at hname
  · contradiction
  · next hletters =>
    obtain ⟨separator, -, hrest⟩ := Option.bind_eq_some_iff.mp hname
    obtain ⟨tail, -, hsome⟩ := Option.bind_eq_some_iff.mp hrest
    obtain rfl := Option.some.inj hsome
    rw [List.append_assoc]
    exact isWordSide_head?_of_letters (Bool.eq_false_of_not_eq_true hletters)

theorem isWordSide_head?_of_propertyName? {text name : List Char}
    (hname : propertyName? text = some name) : isWordSide name.head? = true := by
  simp only [propertyName?] at hname
  split at hname
  · split at hname
    · contradiction
    · next hform =>
      split at hname
      · obtain rfl := Option.some.inj hname
        simp only [Bool.or_eq_true, not_or] at hform
        exact isWordSide_head?_of_letters (Bool.eq_false_of_not_eq_true hform.1.1)
      · contradiction
  · contradiction

theorem isWordSide_head?_of_stemmedSelector? {text stem name : List Char}
    (hstem : isWordSide stem.head? = true) (hname : stemmedSelector? text stem = some name) :
    isWordSide name.head? = true := by
  simp only [stemmedSelector?] at hname
  split at hname
  · obtain ⟨tail, -, rfl⟩ := Option.map_eq_some_iff.mp hname
    cases stem with
    | nil => contradiction
    | cons first others => exact hstem
  · contradiction

/-- Where there are prefixes, framework selectors come from one of them. -/
theorem exists_stem_of_mem {stems : List String} (hne : stems ≠ []) {script name : String}
    (hname : name ∈ frameworkSelectors stems script) :
    ∃ stem ∈ stems, ∃ text, stemmedSelector? text stem.toList = some name.toList := by
  apply of_mem_search
    (fun name => ∃ stem ∈ stems, ∃ text, stemmedSelector? text stem.toList = some name) _ hname
  intro rest hit hmatch
  obtain ⟨found, hfound, rfl⟩ := Option.map_eq_some_iff.mp hmatch
  obtain ⟨_, hmem, hstem⟩ := List.exists_of_findSome?_eq_some hfound
  obtain ⟨stem, hstemMem, rfl⟩ := List.mem_map.mp hmem
  rw [if_neg (by simpa using hne)] at hstemMem
  exact ⟨stem, hstemMem, rest, hstem⟩

end Extraction

namespace Rules

variable {rules : Rules} {kind : SourceKind} {content name : String}

/-- Where there are prefixes, a candidate is found by one of the three rules, and if it is a
framework selector then with one of them. -/
theorem exists_of_mem_candidates_of_ne_nil (hne : rules.stems ≠ [])
    (hname : name ∈ rules.candidates kind content) :
    (∃ text, Extraction.className? text = some name.toList) ∨
      (∃ text, Extraction.propertyName? text = some name.toList) ∨
      ∃ stem ∈ rules.stems, ∃ text,
        Extraction.stemmedSelector? text stem.toList = some name.toList := by
  rcases mem_candidates_iff.mp hname with
    ⟨⟨source, -, hclass⟩, -⟩ | ⟨source, -, hproperty⟩ | ⟨-, hselector, -⟩
  · exact .inl (Extraction.exists_className?_of_mem hclass)
  · exact .inr (.inl (Extraction.exists_propertyName?_of_mem hproperty))
  · exact .inr (.inr (Extraction.exists_stem_of_mem hne hselector))

/-- Candidates begin with a word character if the prefixes of framework selectors do. -/
theorem isWordSide_of_mem_candidates (hne : rules.stems ≠ [])
    (hstems : ∀ stem ∈ rules.stems, Rewriting.isWordSide stem.toList.head? = true)
    (hname : name ∈ rules.candidates kind content) :
    Rewriting.isWordSide name.toList.head? = true := by
  rcases exists_of_mem_candidates_of_ne_nil hne hname with
    ⟨text, hfound⟩ | ⟨text, hfound⟩ | ⟨stem, hstem, text, hfound⟩
  · exact Extraction.isWordSide_head?_of_className? hfound
  · exact Extraction.isWordSide_head?_of_propertyName? hfound
  · exact Extraction.isWordSide_head?_of_stemmedSelector? (hstems stem hstem) hfound

end Rules

end SelectorMangling
