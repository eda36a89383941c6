import Mathlib.Tactic.SplitIfs
import SelectorMangling.Catalog.Elevation

/-!
# Numbering a family

Numbering goes through a catalog place by place.  It changes nothing but the codes of the members,
and the number of a member is how many members stand before it.
-/

namespace SelectorMangling

/-- Number of members of a family among names. -/
def familySize (stem : String) (names : List String) : Nat := names.countP (isFamilyMember stem)

theorem not_isFamilyMember_self (stem : String) : isFamilyMember stem stem = false := by
  simp [isFamilyMember]

theorem familySize_take_lt {stem : String} {names : List String} {first last : Nat}
    (hlt : first < last) {name : String} (hname : names[first]? = some name)
    (hmember : isFamilyMember stem name = true) :
    familySize stem (names.take first) < familySize stem (names.take last) := by
  have htake : familySize stem (names.take (first + 1)) = familySize stem (names.take first) + 1 := by
    rw [List.take_add_one, hname, familySize, List.countP_append]
    simp [familySize, hmember]
  have hle : familySize stem (names.take (first + 1)) ≤ familySize stem (names.take last) :=
    (List.take_sublist_take_left hlt).countP_le
  rw [htake] at hle
  exact hle

/-- Numbering goes through the entries place by place. -/
theorem getElem?_numberFamily (stem base : String) (start : Nat) (entries : List (String × String))
    (place : Nat) :
    (numberFamily stem base start entries)[place]? = entries[place]?.map fun entry =>
      if isFamilyMember stem entry.1 then
        (entry.1, base ++ Nat.repr (start + familySize stem ((entries.take place).map Prod.fst)))
      else entry := by
  induction entries generalizing start place with
  | nil => simp [numberFamily]
  | cons entry rest ih =>
    obtain ⟨name, code⟩ := entry
    cases place with
    | zero => by_cases hmember : isFamilyMember stem name = true <;>
        simp [numberFamily, hmember, familySize]
    | succ place =>
      by_cases hmember : isFamilyMember stem name = true
      · simp [numberFamily, hmember, ih, familySize, Nat.add_assoc, Nat.add_comm 1]
      · simp [numberFamily, hmember, ih, familySize]

namespace Catalog

theorem deriveElevation_of_notMem {catalog : Catalog} {stem : String}
    (habsent : stem ∉ catalog.names) : catalog.deriveElevation stem = catalog := by
  simp [deriveElevation, deriveElevation?, get?_eq_none_iff.mpr habsent]

theorem entries_deriveElevation {catalog : Catalog} {stem base : String}
    (hbase : catalog.get? stem = some base) :
    (catalog.deriveElevation stem).entries = numberFamily stem base 0 catalog.entries := by
  simp [deriveElevation, deriveElevation?, hbase]

/-- Where an entry of the numbered catalog comes from. -/
theorem exists_getElem?_of_deriveElevation {catalog : Catalog} {stem base : String}
    (hbase : catalog.get? stem = some base) {place : Nat} {name code : String}
    (hentry : (catalog.deriveElevation stem).entries[place]? = some (name, code)) :
    ∃ old, catalog.entries[place]? = some (name, old) ∧
      code = if isFamilyMember stem name then
        base ++ Nat.repr (familySize stem (catalog.names.take place)) else old := by
  rw [entries_deriveElevation hbase, getElem?_numberFamily, Option.map_eq_some_iff] at hentry
  obtain ⟨⟨oldName, old⟩, hold, heq⟩ := hentry
  split_ifs at heq with hmember
  · obtain ⟨rfl, rfl⟩ := Prod.mk.inj heq
    exact ⟨old, hold, by simp [hmember, names, List.map_take]⟩
  · obtain ⟨rfl, rfl⟩ := Prod.mk.inj heq
    exact ⟨old, hold, by simp [hmember]⟩

@[simp]
theorem count_deriveElevation (catalog : Catalog) (stem : String) :
    (catalog.deriveElevation stem).count = catalog.count := by
  cases hbase : catalog.get? stem <;> simp [deriveElevation, deriveElevation?, hbase]

@[simp]
theorem names_deriveElevation (catalog : Catalog) (stem : String) :
    (catalog.deriveElevation stem).names = catalog.names := by
  cases hbase : catalog.get? stem with
  | none => rw [deriveElevation_of_notMem (get?_eq_none_iff.mp hbase)]
  | some base => rw [names, entries_deriveElevation hbase, names_numberFamily, names]

@[simp]
theorem size_deriveElevation (catalog : Catalog) (stem : String) :
    (catalog.deriveElevation stem).size = catalog.size := by
  have hlength := congrArg List.length (names_deriveElevation catalog stem)
  simpa [names, size] using hlength

/-- The stem is no member of its own family. -/
theorem get?_stem_deriveElevation (catalog : Catalog) (stem : String) :
    (catalog.deriveElevation stem).get? stem = catalog.get? stem := by
  cases hbase : catalog.get? stem with
  | none =>
    rw [get?_eq_none_iff, names_deriveElevation]
    exact get?_eq_none_iff.mp hbase
  | some base =>
    rw [get?_eq_some_iff, entries_deriveElevation hbase]
    obtain ⟨place, hplace⟩ := List.getElem?_of_mem (get?_eq_some_iff.mp hbase)
    apply List.mem_of_getElem? (i := place)
    simp [getElem?_numberFamily, hplace, not_isFamilyMember_self]

end Catalog

end SelectorMangling
