import SelectorMangling.Proofs.Catalog.Numbering
import SelectorMangling.Proofs.Catalog.Spelling

/-!
# How long codes can be

The code of a counter value has three letters and a digit at most.  A number behind the code of a
stem counts members of the family that stand before it in the catalog, of which there are fewer than
the counter can count.
-/

namespace SelectorMangling

namespace Code

/-- The most characters of the code of a counter value. -/
def longest : Nat := 4

/-- The most digits of a number of the counter. -/
def longestNumber : Nat := 10

theorem length_of_ofCounter {counter : Nat} {code : String}
    (hcode : ofCounter counter = .ok code) : code.length ≤ longest := by
  obtain ⟨letters, digits, hspells, hdigits⟩ := exists_spells_of_ofCounter hcode
  calc
    code.length = letters.length + digits.length := by
      rw [← String.length_toList, hspells.code_eq, List.length_append]
    _ ≤ 3 + 1 := Nat.add_le_add hspells.length_letters hdigits

theorem length_repr_le {place : Nat} (hplace : place < UInt32.size) :
    place.repr.length ≤ longestNumber := by
  apply Nat.repr_length _ _ (by decide)
  exact Nat.lt_trans hplace (by decide)

end Code

theorem length_lt_of_isFamilyMember {stem name : String}
    (hmember : isFamilyMember stem name = true) : stem.length < name.length := by
  obtain ⟨hother, hbegins⟩ := isFamilyMember_iff.mp hmember
  rw [← String.length_toList, ← String.length_toList]
  apply Nat.lt_of_le_of_ne hbegins.length_le
  intro hlength
  exact hother (String.toList_inj.mp (hbegins.eq_of_length hlength)).symm

theorem familySize_take_le (stem : String) (names : List String) (place : Nat) :
    familySize stem (names.take place) ≤ place := by
  apply Nat.le_trans List.countP_le_length
  rw [List.length_take]
  exact Nat.min_le_left _ _

/-- A code is no longer than that of a counter value, but for the number of a member of the
family. -/
theorem Catalog.Numbered.length_code {stem : String} {bound : Nat} {catalog : Catalog}
    (hnumbered : Numbered stem bound catalog) {name code : String}
    (hcode : catalog.get? name = some code) :
    code.length ≤ Code.longest ∨
      isFamilyMember stem name = true ∧ code.length ≤ Code.longest + Code.longestNumber := by
  obtain ⟨place, hplace⟩ := List.getElem?_of_mem (get?_eq_some_iff.mp hcode)
  rcases hnumbered.code_eq hplace with hplain | ⟨hmember, base, hbase, rfl⟩
  · exact .inl (Code.length_of_ofCounter hplain)
  · right
    obtain ⟨_, hcounter⟩ := hnumbered.exists_ofCounter_stem hbase
    have hbelow : place < UInt32.size := by
      calc
        place < catalog.size := (List.getElem?_eq_some_iff.mp hplace).1
        _ = catalog.count := hnumbered.count_eq.symm
        _ < UInt32.size := catalog.count_lt
    have hnumber := Code.length_repr_le (Nat.lt_of_le_of_lt
      (familySize_take_le stem catalog.names place) hbelow)
    rw [String.length_append]
    exact ⟨hmember, Nat.add_le_add (Code.length_of_ofCounter hcounter) hnumber⟩

end SelectorMangling
