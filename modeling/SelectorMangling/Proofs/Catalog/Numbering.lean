import SelectorMangling.Proofs.Catalog.Consistency
import SelectorMangling.Proofs.Catalog.Elevation
import SelectorMangling.Proofs.Catalog.Growth
import SelectorMangling.Proofs.Code

/-!
# How the codes of a catalog come about

Every name gets the code of its place when it is added.  Numbering the family of a stem replaces
the codes of the members that are there by then.  So at any time the codes are told by the names
alone, once it is known how many names there were when the family was last numbered.
-/

namespace SelectorMangling.Catalog

/-- The codes of a catalog whose family of a stem was last numbered when there were `bound` names:
the members among these names are numbered after the code of the stem, and every other name has the
code of its place. -/
structure Numbered (stem : String) (bound : Nat) (catalog : Catalog) : Prop where
  count_eq : catalog.count = catalog.size
  bound_le : bound ≤ catalog.size
  plain : ∀ {place name code}, catalog.entries[place]? = some (name, code) →
    (place < bound → isFamilyMember stem name = false) → Code.ofCounter place = .ok code
  numbered : ∀ {place name code}, catalog.entries[place]? = some (name, code) →
    place < bound → isFamilyMember stem name = true →
    ∃ base, catalog.get? stem = some base ∧
      code = base ++ Nat.repr (familySize stem (catalog.names.take place))

theorem numbered_empty (stem : String) : Numbered stem 0 empty where
  count_eq := rfl
  bound_le := Nat.le_refl 0
  plain := by simp [empty]
  numbered := by simp [empty]

namespace Numbered

variable {stem : String} {bound : Nat} {catalog larger : Catalog}

/-- The stem itself has the code of its place. -/
theorem exists_ofCounter_stem (hnumbered : Numbered stem bound catalog) {base : String}
    (hbase : catalog.get? stem = some base) : ∃ place, Code.ofCounter place = .ok base := by
  obtain ⟨place, hplace⟩ := List.getElem?_of_mem (get?_eq_some_iff.mp hbase)
  exact ⟨place, hnumbered.plain hplace fun _ => not_isFamilyMember_self stem⟩

/-- A new name gets the code of its place, so its place is not below the bound. -/
theorem add (hnumbered : Numbered stem bound catalog) {name code : String}
    (hnew : name ∉ catalog.names) (hadd : catalog.add name = .ok (code, larger)) :
    Numbered stem bound larger := by
  have ⟨hcode, hentries, hcount⟩ := add_eq_ok hnew hadd
  have hsize : larger.size = catalog.size + 1 := by
    rw [size, hentries, List.length_append]
    rfl
  constructor
  case count_eq => rw [hcount, hsize, hnumbered.count_eq]
  case bound_le =>
    rw [hsize]
    exact Nat.le_succ_of_le hnumbered.bound_le
  case plain =>
    intro place other otherCode hentry hplain
    cases getElem?_of_add hnew hadd hentry with
    | inl hold => exact hnumbered.plain hold hplain
    | inr hlast =>
      rw [hlast.1, ← hnumbered.count_eq, (Prod.mk.inj hlast.2).2]
      exact hcode
  case numbered =>
    intro place other otherCode hentry hplace hmember
    have hbelow : place < catalog.size := Nat.lt_of_lt_of_le hplace hnumbered.bound_le
    cases getElem?_of_add hnew hadd hentry with
    | inl hold =>
      obtain ⟨base, hbase, heq⟩ := hnumbered.numbered hold hplace hmember
      have hgrows : Grows (fun _ => True) catalog larger := Grows.refl.add hnew trivial hadd
      have hnames : larger.names.take place = catalog.names.take place := by
        rw [names, hentries, List.map_append]
        exact List.take_append_of_le_length (by simpa [size] using Nat.le_of_lt hbelow)
      rw [hnames]
      exact ⟨base, hgrows.get?_eq_some hbase, heq⟩
    | inr hlast => exact absurd hlast.1 (Nat.ne_of_lt hbelow)

theorem grows {allowed : String → Prop} (hnumbered : Numbered stem bound catalog)
    (hgrows : Grows allowed catalog larger) : Numbered stem bound larger := by
  induction hgrows with
  | refl => exact hnumbered
  | add _ hnew _ hadd ih => exact ih.add hnew hadd

/-- Every code is the code of its place, or it is numbered after the code of the stem. -/
theorem code_eq (hnumbered : Numbered stem bound catalog) {place : Nat} {name code : String}
    (hentry : catalog.entries[place]? = some (name, code)) :
    Code.ofCounter place = .ok code ∨
      isFamilyMember stem name = true ∧ ∃ base, catalog.get? stem = some base ∧
        code = base ++ Nat.repr (familySize stem (catalog.names.take place)) := by
  by_cases hcovered : place < bound ∧ isFamilyMember stem name = true
  · exact .inr ⟨hcovered.2, hnumbered.numbered hentry hcovered.1 hcovered.2⟩
  · refine .inl (hnumbered.plain hentry fun hplace => ?_)
    exact Bool.eq_false_iff.mpr fun hmember => hcovered ⟨hplace, hmember⟩

/-- Codes of different places differ: letters tell the place, a number behind the code of the stem
is never a code of a place, and no two members have the same number. -/
theorem code_ne (hnumbered : Numbered stem bound catalog) {first last : Nat} (hlt : first < last)
    {left right leftCode rightCode : String}
    (hleft : catalog.entries[first]? = some (left, leftCode))
    (hright : catalog.entries[last]? = some (right, rightCode)) : leftCode ≠ rightCode := by
  rintro rfl
  rcases hnumbered.code_eq hleft with hfirst | ⟨hmember, base, hbase, hfirst⟩
  · rcases hnumbered.code_eq hright with hlast | ⟨-, base, hbase, hlast⟩
    · exact Nat.ne_of_lt hlt (Code.ofCounter_injective hfirst hlast)
    · obtain ⟨place, hplace⟩ := hnumbered.exists_ofCounter_stem hbase
      exact Code.append_repr_ne_ofCounter hplace hfirst hlast.symm
  · obtain ⟨place, hplace⟩ := hnumbered.exists_ofCounter_stem hbase
    rcases hnumbered.code_eq hright with hlast | ⟨-, other, hother, hlast⟩
    · exact Code.append_repr_ne_ofCounter hplace hlast hfirst.symm
    · obtain rfl : base = other := Option.some.inj (hbase.symm.trans hother)
      have hname : catalog.names[first]? = some left := by
        rw [names, List.getElem?_map, hleft]
        rfl
      have hsizes := familySize_take_lt hlt hname hmember
      exact Nat.ne_of_lt hsizes (Code.repr_eq_of_append_eq (hfirst.symm.trans hlast))

theorem codes_nodup (hnumbered : Numbered stem bound catalog) : catalog.codes.Nodup := by
  rw [List.nodup_iff_getElem?_ne_getElem?]
  intro first last hlt hlast hsame
  rw [codes, List.length_map] at hlast
  have hright : catalog.entries[last]? = some catalog.entries[last] :=
    List.getElem?_eq_getElem hlast
  have hleft : catalog.entries[first]? = some catalog.entries[first] :=
    List.getElem?_eq_getElem (Nat.lt_trans hlt hlast)
  apply hnumbered.code_ne hlt hleft hright
  simpa [codes, hleft, hright] using hsame

/-- Different names have different codes, there are as many of them as were counted, and so the
catalog is accepted. -/
theorem consistent (hnumbered : Numbered stem bound catalog) :
    catalog.size = catalog.count ∧ catalog.CodesDiffer (fun _ => True) ∧
      catalog.validate = .ok () := by
  have hsize := hnumbered.count_eq.symm
  exact ⟨hsize, codesDiffer_iff.mpr hnumbered.codes_nodup, validate_eq_ok_iff.mpr (.inr hsize)⟩

/-- Numbering the family covers all the names that are there, unless the stem is missing, when
nothing changes. -/
theorem deriveElevation (hnumbered : Numbered stem bound catalog) :
    Numbered stem (if stem ∈ catalog.names then catalog.size else bound)
      (catalog.deriveElevation stem) := by
  cases hbase : catalog.get? stem with
  | none =>
    have habsent := get?_eq_none_iff.mp hbase
    rw [if_neg habsent, deriveElevation_of_notMem habsent]
    exact hnumbered
  | some base =>
    rw [if_pos (mem_names_of_get? hbase)]
    constructor
    case count_eq => simpa using hnumbered.count_eq
    case bound_le => simp
    case plain =>
      intro place name code hentry hplain
      obtain ⟨old, hold, rfl⟩ := exists_getElem?_of_deriveElevation hbase hentry
      have hplace : place < catalog.size := (List.getElem?_eq_some_iff.mp hold).1
      rw [if_neg (by simp [hplain hplace])]
      exact hnumbered.plain hold fun _ => hplain hplace
    case numbered =>
      intro place name code hentry hplace hmember
      obtain ⟨old, hold, rfl⟩ := exists_getElem?_of_deriveElevation hbase hentry
      rw [if_pos hmember, names_deriveElevation]
      exact ⟨base, (get?_stem_deriveElevation catalog stem).trans hbase, rfl⟩

end Numbered

end SelectorMangling.Catalog
