import SelectorMangling.Proofs.Catalog.Spelling
import SelectorMangling.Proofs.Rewriting.Splice

/-!
# Replacements take separators away

Names that extraction finds are compound: they have hyphens or underscores, and codes have none.  So
each replacement leaves fewer of them in the text, and a text that is rewritten to itself is one in
which nothing is replaced.
-/

namespace SelectorMangling

open Rewriting Extraction

/-- Names are compound tokens that begin with a word character, and codes are spelled like codes. -/
structure Catalog.WellNamed (catalog : Catalog) : Prop where
  isToken : ∀ name ∈ catalog.names, IsToken name.toList
  begins : ∀ name ∈ catalog.names, isWordSide name.toList.head? = true
  isCompound : ∀ name ∈ catalog.names, IsCompound name.toList
  spelled : catalog.Spelled

namespace Catalog.WellNamed

variable {catalog : Catalog}

theorem empty_notMem (hnamed : catalog.WellNamed) : "" ∉ catalog.names := by
  intro hmem
  have hbegins := hnamed.begins "" hmem
  contradiction

theorem ends (hnamed : catalog.WellNamed) {name : String} (hname : name ∈ catalog.names) :
    isWordSide name.toList.getLast? = true := by
  obtain ⟨last, hlast, hword⟩ := (hnamed.isToken name hname).ends
  rwa [Option.mem_def.mp hlast]

/-- Of the characters of a name only hyphens are no part of a word. -/
theorem eq_hyphen (hnamed : catalog.WellNamed) {name : String} (hname : name ∈ catalog.names)
    {c : Char} (hmem : c ∈ name.toList) (hnone : isWordSide (some c) = false) : c = '-' := by
  have hchar := (hnamed.isToken name hname).chars c hmem
  rw [isTokenChar, Bool.or_eq_true, beq_iff_eq] at hchar
  exact hchar.resolve_left (by simpa [isWordSide] using hnone)

end Catalog.WellNamed

namespace Code

variable {code : String}

theorem IsSpelled.isWord (hspelled : IsSpelled code) : ∀ c ∈ code.toList, isWord c = true := by
  obtain ⟨letters, digits, hspells⟩ := hspelled
  rw [hspells.code_eq]
  refine List.forall_mem_append.mpr ⟨?_, ?_⟩
  · intro c hc
    exact isWord_of_isLetter (hspells.isLetter c hc)
  · intro c hc
    simp [Rewriting.isWord, Char.isAlphanum, hspells.isDigit c hc]

theorem IsSpelled.ne_nil (hspelled : IsSpelled code) : code.toList ≠ [] := by
  obtain ⟨letters, digits, hspells⟩ := hspelled
  rw [hspells.code_eq]
  simp [hspells.letters_ne_nil]

/-- A code begins with a word character, and ends in one. -/
theorem IsSpelled.isWordSide (hspelled : IsSpelled code) :
    isWordSide code.toList.head? = true ∧ isWordSide code.toList.getLast? = true := by
  constructor
  · rw [List.head?_eq_some_head hspelled.ne_nil]
    exact hspelled.isWord _ (List.head_mem _)
  · rw [List.getLast?_eq_some_getLast hspelled.ne_nil]
    exact hspelled.isWord _ (List.getLast_mem _)

theorem IsSpelled.not_isCompound (hspelled : IsSpelled code) : ¬IsCompound code.toList := by
  obtain ⟨letters, digits, hspells⟩ := hspelled
  rw [IsCompound, hspells.code_eq]
  simp only [List.mem_append]
  rintro ((hletter | hdigit) | (hletter | hdigit))
  · exact absurd (hspells.isLetter _ hletter) (by decide)
  · exact absurd (hspells.isDigit _ hdigit) (by decide)
  · exact absurd (hspells.isLetter _ hletter) (by decide)
  · exact absurd (hspells.isDigit _ hdigit) (by decide)

end Code

namespace Rewriting

variable {catalog : Catalog} {text : List Char} {place : Nat}

def isSeparator (c : Char) : Bool := c == '-' || c == '_'

theorem countP_isSeparator_pos_iff {text : List Char} :
    0 < text.countP isSeparator ↔ IsCompound text := by
  simp [List.countP_pos_iff, isSeparator, IsCompound, and_or_left, exists_or]

/-- Each replacement takes at least one separator away. -/
theorem countP_splice_add_length_le (hnamed : catalog.WellNamed) {replacements : List Replacement}
    (hgreedy : Greedy catalog text place replacements) :
    (splice text place replacements).countP isSeparator + replacements.length ≤
      (text.drop place).countP isSeparator := by
  induction hgreedy with
  | done => simp [splice]
  | @next place replacement later hplace _ hreplacement _ ih =>
    have hstands := hreplacement.standsLongest.toStands
    have hname : 0 < replacement.name.toList.countP isSeparator :=
      countP_isSeparator_pos_iff.mpr (hnamed.isCompound _ hstands.cataloged)
    have hspelled := hnamed.spelled.of_get? hreplacement.code_eq
    have hcode : replacement.code.toList.countP isSeparator = 0 :=
      Nat.eq_zero_of_not_pos (mt countP_isSeparator_pos_iff.mp hspelled.not_isCompound)
    rw [drop_eq_append hplace hstands.occurs, splice]
    simp only [List.countP_append, List.length_cons]
    omega

/-- A text is rewritten to itself exactly if it has no candidates. -/
theorem rewrite_eq_self_iff (hnamed : catalog.WellNamed) (text : String) :
    catalog.rewrite text = some text ↔ ∀ place, ¬IsCandidate catalog text.toList place := by
  obtain ⟨replacements, hgreedy, hrewritten⟩ := exists_greedy_rewrite hnamed.empty_notMem text
  rw [hrewritten, Option.some.injEq, ← String.toList_inj, String.toList_ofList]
  constructor
  · intro hself place hcandidate
    obtain ⟨replacement, hmem, -⟩ := hgreedy.exists_covering (Nat.zero_le _) hcandidate
    have hpos : 0 < replacements.length := List.length_pos_of_mem hmem
    have hle := countP_splice_add_length_le hnamed hgreedy
    rw [hself, List.drop_zero] at hle
    omega
  · intro hnone
    have hnothing : Greedy catalog text.toList 0 [] := .done fun later _ => hnone later
    rw [hgreedy.unique hnothing, splice, List.drop_zero]

end Rewriting

end SelectorMangling
