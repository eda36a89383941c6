import Mathlib.Data.Nat.Digits.Defs
import SelectorMangling.Extraction.Name
import SelectorMangling.Proofs.Catalog.Elevation
import SelectorMangling.Proofs.Catalog.Growth
import SelectorMangling.Proofs.Code
import SelectorMangling.Rewriting.Occurrence

/-!
# How codes are spelled

A code begins with one to three letters, and only digits follow them, however many families with
however many stems have been numbered.  So a code is one word that begins with a letter, and it is
never spelled like a compound name.
-/

namespace SelectorMangling

namespace Code

open Extraction Rewriting

/-- One to three letters, and digits behind them. -/
structure Spells (code letters digits : List Char) : Prop where
  code_eq : code = letters ++ digits
  letters_ne_nil : letters ≠ []
  length_letters : letters.length ≤ 3
  isLetter : ∀ c ∈ letters, isLetter c = true
  isDigit : ∀ c ∈ digits, c.isDigit = true

def IsSpelled (code : String) : Prop := ∃ letters digits, Spells code.toList letters digits

theorem isLetter_letter {place : Nat} (hplace : place < alphabetSize) :
    isLetter (letter place) = true := by
  revert place
  decide

theorem length_of_places? {counter : Nat} {places : List Nat}
    (hplaces : places? counter = some places) : places ≠ [] ∧ places.length ≤ 3 := by
  rw [places?_eq] at hplaces
  split at hplaces
  · cases hplaces
    simp
  · split at hplaces
    · cases hplaces
      simp
    · split at hplaces
      · cases hplaces
        simp
      · contradiction

/-- The letters of a counter value spell a code, with or without digits behind them. -/
theorem spells_of_places? {counter : Nat} {places : List Nat}
    (hplaces : places? counter = some places) {digits : List Char}
    (hdigits : ∀ c ∈ digits, c.isDigit = true) :
    Spells (places.map letter ++ digits) (places.map letter) digits where
  code_eq := rfl
  letters_ne_nil := by
    rw [ne_eq, List.map_eq_nil_iff]
    exact (length_of_places? hplaces).1
  length_letters := by
    rw [List.length_map]
    exact (length_of_places? hplaces).2
  isLetter := by
    intro c hc
    obtain ⟨place, hplace, rfl⟩ := List.mem_map.mp hc
    exact isLetter_letter (lt_alphabetSize_of_places? hplaces place hplace)
  isDigit := hdigits

/-- The code of a counter value has one digit at most. -/
theorem exists_spells_of_ofCounter {counter : Nat} {code : String}
    (hcode : ofCounter counter = .ok code) :
    ∃ letters digits, Spells code.toList letters digits ∧ digits.length ≤ 1 := by
  simp only [ofCounter, letters?] at hcode
  cases hplaces : places? counter with
  | none => simp [hplaces] at hcode
  | some places =>
    simp only [hplaces, Option.map_some] at hcode
    split at hcode
    · cases hcode
      refine ⟨places.map letter, (counter % 10).repr.toList, ?_, ?_⟩
      · rw [String.toList_append, String.toList_ofList]
        exact spells_of_places? hplaces fun _ => isDigit_of_mem_repr
      · rw [String.length_toList]
        exact Nat.repr_length _ 1 Nat.one_pos (Nat.mod_lt _ (by decide))
    · cases hcode
      refine ⟨places.map letter, [], ?_, Nat.zero_le 1⟩
      rw [String.toList_ofList]
      simpa using spells_of_places? hplaces (List.forall_mem_nil _)

theorem isSpelled_of_ofCounter {counter : Nat} {code : String}
    (hcode : ofCounter counter = .ok code) : IsSpelled code := by
  obtain ⟨letters, digits, hspells, -⟩ := exists_spells_of_ofCounter hcode
  exact ⟨letters, digits, hspells⟩

namespace IsSpelled

variable {code : String}

/-- A number behind a code spells a code again. -/
theorem append_repr (hspelled : IsSpelled code) (place : Nat) :
    IsSpelled (code ++ place.repr) := by
  obtain ⟨letters, digits, hspells⟩ := hspelled
  refine ⟨letters, digits ++ place.repr.toList, ?_, hspells.letters_ne_nil,
    hspells.length_letters, hspells.isLetter, ?_⟩
  · rw [String.toList_append, hspells.code_eq, List.append_assoc]
  · exact List.forall_mem_append.mpr ⟨hspells.isDigit, fun _ => isDigit_of_mem_repr⟩

end IsSpelled

end Code

namespace Catalog

/-- All codes of a catalog are spelled like codes. -/
def Spelled (catalog : Catalog) : Prop := ∀ code ∈ catalog.codes, Code.IsSpelled code

theorem spelled_empty : Spelled empty := by
  simp [Spelled, codes, empty]

namespace Spelled

variable {catalog larger : Catalog}

theorem of_get? (hspelled : Spelled catalog) {name code : String}
    (hcode : catalog.get? name = some code) : Code.IsSpelled code :=
  hspelled code (List.mem_map_of_mem (get?_eq_some_iff.mp hcode))

theorem grows {allowed : String → Prop} (hspelled : Spelled catalog)
    (hgrows : Grows allowed catalog larger) : Spelled larger := by
  induction hgrows with
  | refl => exact hspelled
  | add _ hnew _ hadd ih =>
    obtain ⟨hcode, hentries, -⟩ := add_eq_ok hnew hadd
    intro code hmem
    rw [codes, hentries, List.map_append, List.mem_append] at hmem
    rcases hmem with hold | hlast
    · exact ih code hold
    · obtain rfl := List.mem_singleton.mp hlast
      exact Code.isSpelled_of_ofCounter hcode

theorem deriveElevation (hspelled : Spelled catalog) (stem : String) :
    Spelled (catalog.deriveElevation stem) := by
  intro code hmem
  obtain ⟨⟨name, _⟩, hentry, rfl⟩ := List.mem_map.mp hmem
  cases hbase : catalog.get? stem with
  | none =>
    rw [deriveElevation_of_notMem (get?_eq_none_iff.mp hbase)] at hmem
    exact hspelled _ hmem
  | some base =>
    obtain ⟨place, hplace⟩ := List.getElem?_of_mem hentry
    obtain ⟨old, hold, rfl⟩ := exists_getElem?_of_deriveElevation hbase hplace
    dsimp only
    split
    · exact (hspelled.of_get? hbase).append_repr _
    · exact hspelled old (List.mem_map_of_mem (List.mem_of_getElem? hold))

end Spelled

end Catalog

end SelectorMangling
