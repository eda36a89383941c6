import SelectorMangling.Catalog.Basic

/-!
# The elevation family

The names that start with the elevation prefix form a family.  Once the bare prefix is cataloged,
its members get the code of the prefix followed by their place in the family, so that code built
by joining the prefix and a level still finds its rule.
-/

namespace SelectorMangling

/-- Whether a name starts with the stem and is longer than it. -/
def isFamilyMember (stem name : String) : Bool :=
  name != stem && stem.toList.isPrefixOf name.toList

theorem isFamilyMember_iff {stem name : String} :
    isFamilyMember stem name = true ↔ name ≠ stem ∧ stem.toList <+: name.toList := by
  rw [isFamilyMember, Bool.and_eq_true, bne_iff_ne, List.isPrefixOf_iff_prefix]

/-- Gives the members of a family the code `base` followed by their place, counted from `place`
on. -/
def numberFamily (stem base : String) :
    Nat → List (String × String) → List (String × String)
  | _, [] => []
  | place, (name, code) :: rest =>
    if isFamilyMember stem name then
      (name, base ++ Nat.repr place) :: numberFamily stem base (place + 1) rest
    else
      (name, code) :: numberFamily stem base place rest

@[simp]
theorem names_numberFamily (stem base : String) (place : Nat) (entries : List (String × String)) :
    (numberFamily stem base place entries).map Prod.fst = entries.map Prod.fst := by
  induction entries generalizing place with
  | nil => rfl
  | cons entry rest ih =>
    obtain ⟨name, code⟩ := entry
    by_cases hmember : isFamilyMember stem name = true <;> simp [numberFamily, hmember, ih]

/-- The members stay as many as they are when they are numbered. -/
theorem countP_numberFamily (stem base : String) (place : Nat)
    (entries : List (String × String)) :
    (numberFamily stem base place entries).countP (fun entry => isFamilyMember stem entry.1) =
      entries.countP fun entry => isFamilyMember stem entry.1 := by
  induction entries generalizing place with
  | nil => rfl
  | cons entry rest ih =>
    obtain ⟨name, code⟩ := entry
    by_cases hmember : isFamilyMember stem name = true <;> simp [numberFamily, hmember, ih]

namespace Catalog

def family (catalog : Catalog) (stem : String) : List (String × String) :=
  catalog.entries.filter fun entry => isFamilyMember stem entry.1

/-- Numbers the family of a stem after the code of the stem; `none` if the stem is not
cataloged. -/
def deriveElevation? (catalog : Catalog) (stem : String) : Option Catalog :=
  (catalog.get? stem).map fun base =>
    { catalog with
      entries := numberFamily stem base 0 catalog.entries
      names_nodup := by simpa using catalog.names_nodup }

/-- Numbers the family of a stem, or leaves the catalog as it is when the stem is not
cataloged. -/
def deriveElevation (catalog : Catalog) (stem : String) : Catalog :=
  (catalog.deriveElevation? stem).getD catalog

/-- Number of names that `deriveElevation` gives a code to. -/
def elevationCount (catalog : Catalog) (stem : String) : Nat :=
  match catalog.get? stem with
  | none => 0
  | some _ => (catalog.family stem).length

theorem elevationCount_eq_zero {catalog : Catalog} {stem : String}
    (hnone : catalog.deriveElevation? stem = none) : catalog.elevationCount stem = 0 := by
  rw [deriveElevation?, Option.map_eq_none_iff] at hnone
  rw [elevationCount, hnone]

/-- The number is that of the members in the catalog that `deriveElevation?` gives. -/
theorem elevationCount_eq_length_family {catalog derived : Catalog} {stem : String}
    (hderived : catalog.deriveElevation? stem = some derived) :
    catalog.elevationCount stem = (derived.family stem).length := by
  obtain ⟨base, hbase, rfl⟩ := Option.map_eq_some_iff.mp hderived
  rw [elevationCount, hbase]
  simp only [family, ← List.countP_eq_length_filter, countP_numberFamily]

end Catalog

end SelectorMangling
