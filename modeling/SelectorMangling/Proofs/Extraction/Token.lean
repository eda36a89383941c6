import Mathlib.Data.List.TakeWhile
import SelectorMangling.Proofs.Extraction.Candidate
import SelectorMangling.Rewriting.Occurrence

/-!
# Candidates are tokens

Hyphenated names are made of word characters and hyphens.  Candidates are such names, as long as the
prefixes of framework selectors are, and they end in a word character.
-/

namespace SelectorMangling

namespace Rewriting

/-- The characters of hyphenated names. -/
def isTokenChar (c : Char) : Bool := isWord c || c == '-'

end Rewriting

namespace Extraction

open Rewriting

/-- A hyphenated name that ends in a word character. -/
structure IsToken (name : List Char) : Prop where
  chars : ∀ c ∈ name, isTokenChar c = true
  ends : ∃ last ∈ name.getLast?, isWord last = true

theorem isWord_of_isLetter {c : Char} (hletter : isLetter c = true) : isWord c = true := by
  rw [isLetter_eq_isLower] at hletter
  simp [isWord_eq, hletter]

theorem isWord_of_isLetterOrDigit {c : Char} (hc : isLetterOrDigit c = true) : isWord c = true := by
  rw [isLetterOrDigit_eq, Bool.or_eq_true] at hc
  rcases hc with hlower | hdigit
  · simp [isWord_eq, hlower]
  · simp [isWord_eq, hdigit]

theorem isTokenChar_of_isWord {c : Char} (hword : isWord c = true) : isTokenChar c = true := by
  simp [isTokenChar, hword]

theorem isTokenChar_of_isLetter {c : Char} (hletter : isLetter c = true) : isTokenChar c = true :=
  isTokenChar_of_isWord (isWord_of_isLetter hletter)

/-- What stands before a token belongs to it if it is made of characters of tokens. -/
theorem IsToken.append {front tail : List Char} (hfront : ∀ c ∈ front, isTokenChar c = true)
    (htail : IsToken tail) : IsToken (front ++ tail) where
  chars := List.forall_mem_append.mpr ⟨hfront, htail.chars⟩
  ends := by
    obtain ⟨last, hlast, hword⟩ := htail.ends
    refine ⟨last, ?_, hword⟩
    rw [List.getLast?_append, Option.mem_def.mp hlast]
    rfl

/-- A tail has allowed characters only, and its last one may end a name. -/
theorem isToken_of_tail? {isAllowed mayEnd : Char → Bool} {text tail : List Char}
    (hallowed : ∀ c, isAllowed c = true → isTokenChar c = true)
    (hends : ∀ c, mayEnd c = true → isWord c = true)
    (htail : tail? isAllowed mayEnd text = some tail) : IsToken tail := by
  simp only [tail?] at htail
  split at htail
  · contradiction
  · next hlong =>
    obtain rfl := Option.some.inj htail
    simp only [trimEnd] at hlong ⊢
    constructor
    · intro c hc
      have hrun : c ∈ text.takeWhile isAllowed := by
        simpa using (List.dropWhile_sublist _).subset (List.mem_reverse.mp hc)
      exact hallowed c (List.mem_takeWhile_imp hrun)
    · have hstop := List.head?_dropWhile_not (fun c => !mayEnd c) (text.takeWhile isAllowed).reverse
      rw [List.getLast?_reverse]
      cases hhead : ((text.takeWhile isAllowed).reverse.dropWhile fun c => !mayEnd c).head? with
      | none =>
        rw [List.head?_eq_none_iff] at hhead
        simp [hhead] at hlong
      | some last =>
        rw [hhead] at hstop
        exact ⟨last, rfl, hends last (by simpa using hstop)⟩

theorem isTokenChar_of_mem_separator? {text separator : List Char}
    (hseparator : separator? text = some separator) : ∀ c ∈ separator, isTokenChar c = true := by
  unfold separator? at hseparator
  split at hseparator
  · cases hseparator
    simp [isTokenChar]
  · cases hseparator
    simp [isTokenChar, isWord]
  · contradiction

theorem isToken_of_className? {text name : List Char} (hname : className? text = some name) :
    IsToken name := by
  simp only [className?] at hname
  split at hname
  · contradiction
  · obtain ⟨separator, hseparator, hrest⟩ := Option.bind_eq_some_iff.mp hname
    obtain ⟨tail, htail, hsome⟩ := Option.bind_eq_some_iff.mp hrest
    cases hsome
    have hallowed : ∀ c, isClassNameChar c = true → isTokenChar c = true := by
      intro c hc
      simp only [isClassNameChar, Bool.or_eq_true, beq_iff_eq] at hc
      rcases hc with (hword | rfl) | rfl
      · exact isTokenChar_of_isWord (isWord_of_isLetterOrDigit hword)
      · decide
      · decide
    apply IsToken.append _ (isToken_of_tail? hallowed (fun _ => isWord_of_isLetterOrDigit) htail)
    exact List.forall_mem_append.mpr
      ⟨fun c hc => isTokenChar_of_isLetter (List.mem_takeWhile_imp hc),
        isTokenChar_of_mem_separator? hseparator⟩

theorem isToken_of_propertyName? {text name : List Char}
    (hname : propertyName? text = some name) : IsToken name := by
  simp only [propertyName?] at hname
  split at hname
  · next rest _ =>
    split at hname
    · contradiction
    · next hform =>
      split at hname
      · cases hname
        simp only [Bool.or_eq_true, not_or, Bool.not_eq_true', Bool.not_eq_false] at hform
        obtain ⟨last, hlast, hend⟩ := (Option.any_eq_true _ _).mp hform.2
        have htail : IsToken (rest.takeWhile isPropertyChar) := by
          refine ⟨?_, last, hlast, isWord_of_isLetterOrDigit hend⟩
          intro c hc
          have hallowed := List.mem_takeWhile_imp hc
          simp only [isPropertyChar, Bool.or_eq_true, beq_iff_eq] at hallowed
          rcases hallowed with hword | rfl
          · exact isTokenChar_of_isWord (isWord_of_isLetterOrDigit hword)
          · decide
        have hfront : ∀ c ∈ text.takeWhile isLetter ++ ['-'], isTokenChar c = true :=
          List.forall_mem_append.mpr
            ⟨fun c hc => isTokenChar_of_isLetter (List.mem_takeWhile_imp hc), by simp [isTokenChar]⟩
        simpa using IsToken.append hfront htail
      · contradiction
  · contradiction

theorem isToken_of_stemmedSelector? {text stem name : List Char}
    (hstem : ∀ c ∈ stem, isTokenChar c = true) (hname : stemmedSelector? text stem = some name) :
    IsToken name := by
  simp only [stemmedSelector?] at hname
  split at hname
  · obtain ⟨tail, htail, rfl⟩ := Option.map_eq_some_iff.mp hname
    have hallowed : ∀ c, isFrameworkChar c = true → isTokenChar c = true := by
      intro c hc
      simp only [isFrameworkChar, Bool.or_eq_true, beq_iff_eq] at hc
      rcases hc with (hletter | rfl) | rfl
      · exact isTokenChar_of_isLetter hletter
      · decide
      · decide
    apply IsToken.append _ (isToken_of_tail? hallowed (fun _ => isWord_of_isLetter) htail)
    exact List.forall_mem_append.mpr ⟨hstem, by simp [isTokenChar]⟩
  · contradiction

end Extraction

/-- Candidates are tokens if the prefixes of framework selectors have characters of tokens only. -/
theorem Rules.isToken_of_mem_candidates {rules : Rules} {kind : SourceKind} {content name : String}
    (hstems : ∀ stem ∈ rules.stems, ∀ c ∈ stem.toList, Rewriting.isTokenChar c = true)
    (hname : name ∈ rules.candidates kind content) : Extraction.IsToken name.toList := by
  rcases exists_of_mem_candidates hname with
    ⟨text, hclass⟩ | ⟨text, hproperty⟩ | ⟨text, stem, hstem, hselector⟩
  · exact Extraction.isToken_of_className? hclass
  · exact Extraction.isToken_of_propertyName? hproperty
  · apply Extraction.isToken_of_stemmedSelector? _ hselector
    rcases hstem with hmem | rfl
    · exact hstems stem hmem
    · simp

end SelectorMangling
