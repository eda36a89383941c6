import SelectorMangling.Proofs.Catalog.Numbering

/-!
# How stable codes are

Between builds the codes of a catalog are told by its names alone.  Names only come in at the end,
so a name keeps its code, with one exception: a member of the family that was cataloged before its
stem gets another code once the stem comes in.
-/

namespace SelectorMangling.Catalog

/-- The codes of a catalog after a build: the family is numbered if the stem is there. -/
def Settled (stem : String) (catalog : Catalog) : Prop :=
  Numbered stem (if stem ∈ catalog.names then catalog.size else 0) catalog

/-- The later catalog has the names of the earlier one.  Their codes are the same, except that the
members of the family get other ones if the stem has come in between. -/
def KeepsCodes (stem : String) (old new : Catalog) : Prop :=
  ∀ name code, old.get? name = some code → ∃ now, new.get? name = some now ∧
    (now = code ↔ ¬(isFamilyMember stem name = true ∧ stem ∉ old.names ∧ stem ∈ new.names))

theorem settled_empty (stem : String) : Settled stem empty := by
  rw [Settled, if_neg (notMem_names_empty stem)]
  exact numbered_empty stem

variable {stem : String} {old new : Catalog}

/-- A name that comes first in both catalogs has the same place in them. -/
theorem exists_getElem?_of_prefix (hfront : old.names <+: new.names) {place : Nat}
    {name code : String} (hentry : old.entries[place]? = some (name, code)) :
    ∃ later, new.entries[place]? = some (name, later) := by
  have hold : old.names[place]? = some name := by
    rw [names, List.getElem?_map, hentry]
    rfl
  have hnew : new.names[place]? = some name := by
    have hplace : place < old.names.length := (List.getElem?_eq_some_iff.mp hold).1
    rw [← hold, List.prefix_iff_getElem?.mp hfront place hplace, List.getElem?_eq_getElem hplace]
  rw [names, List.getElem?_map, Option.map_eq_some_iff] at hnew
  obtain ⟨⟨found, later⟩, hlater, rfl⟩ := hnew
  exact ⟨later, hlater⟩

/-- The members before a place are the same as long as the names are. -/
theorem take_names_eq (hfront : old.names <+: new.names) {place : Nat} {entry : String × String}
    (hentry : old.entries[place]? = some entry) :
    new.names.take place = old.names.take place := by
  obtain ⟨added, hadded⟩ := hfront
  have hplace : place < old.entries.length := (List.getElem?_eq_some_iff.mp hentry).1
  rw [← hadded]
  exact List.take_append_of_le_length (by simpa [names] using Nat.le_of_lt hplace)

namespace Settled

/-- Growing and numbering again settles the codes. -/
theorem deriveElevation {allowed : String → Prop} (hold : Settled stem old)
    (hgrows : Grows allowed old new) : Settled stem (new.deriveElevation stem) := by
  have hnumbered := (Numbered.grows hold hgrows).deriveElevation
  rw [Settled, names_deriveElevation, size_deriveElevation]
  split_ifs at hnumbered ⊢ with hnew hold
  · exact hnumbered
  · exact absurd (hgrows.names_prefix.subset hold) hnew
  · exact hnumbered

theorem plain_of_not_member (hsettled : Settled stem old) {place : Nat} {name code : String}
    (hentry : old.entries[place]? = some (name, code)) (houtside : isFamilyMember stem name = false) :
    Code.ofCounter place = .ok code :=
  Numbered.plain hsettled hentry fun _ => houtside

theorem plain_of_stem_notMem (hsettled : Settled stem old) (hstem : stem ∉ old.names) {place : Nat}
    {name code : String} (hentry : old.entries[place]? = some (name, code)) :
    Code.ofCounter place = .ok code := by
  rw [Settled, if_neg hstem] at hsettled
  exact hsettled.plain hentry fun hplace => absurd hplace (Nat.not_lt_zero place)

theorem numbered_of_stem_mem (hsettled : Settled stem old) (hstem : stem ∈ old.names) {place : Nat}
    {name code : String} (hentry : old.entries[place]? = some (name, code))
    (hmember : isFamilyMember stem name = true) :
    ∃ base, old.get? stem = some base ∧
      code = base ++ Nat.repr (familySize stem (old.names.take place)) := by
  rw [Settled, if_pos hstem] at hsettled
  exact hsettled.numbered hentry (List.getElem?_eq_some_iff.mp hentry).1 hmember

/-- The stem keeps its code. -/
theorem get?_stem_eq (hold : Settled stem old) (hnew : Settled stem new)
    (hfront : old.names <+: new.names) {base : String} (hbase : old.get? stem = some base) :
    new.get? stem = some base := by
  obtain ⟨place, hplace⟩ := List.getElem?_of_mem (get?_eq_some_iff.mp hbase)
  obtain ⟨later, hlater⟩ := exists_getElem?_of_prefix hfront hplace
  have hsame := (hold.plain_of_not_member hplace (not_isFamilyMember_self stem)).symm.trans
    (hnew.plain_of_not_member hlater (not_isFamilyMember_self stem))
  rw [Except.ok.inj hsame]
  exact get?_eq_some_iff.mpr (List.mem_of_getElem? hlater)

theorem keepsCodes (hold : Settled stem old) (hnew : Settled stem new)
    (hfront : old.names <+: new.names) : KeepsCodes stem old new := by
  intro name code hcode
  obtain ⟨place, hplace⟩ := List.getElem?_of_mem (get?_eq_some_iff.mp hcode)
  obtain ⟨later, hlater⟩ := exists_getElem?_of_prefix hfront hplace
  refine ⟨later, get?_eq_some_iff.mpr (List.mem_of_getElem? hlater), ?_⟩
  cases hmember : isFamilyMember stem name with
  | false =>
    have hsame := (hold.plain_of_not_member hplace hmember).symm.trans
      (hnew.plain_of_not_member hlater hmember)
    simp [Except.ok.inj hsame]
  | true =>
    by_cases hbefore : stem ∈ old.names
    · -- The family was numbered before: the stem keeps its code, the member its number.
      obtain ⟨base, hbase, rfl⟩ := hold.numbered_of_stem_mem hbefore hplace hmember
      obtain ⟨other, hother, rfl⟩ :=
        hnew.numbered_of_stem_mem (hfront.subset hbefore) hlater hmember
      obtain rfl : base = other :=
        Option.some.inj ((hold.get?_stem_eq hnew hfront hbase).symm.trans hother)
      simp [take_names_eq hfront hplace, hbefore]
    · have hplain := hold.plain_of_stem_notMem hbefore hplace
      by_cases hafter : stem ∈ new.names
      · -- The stem has come in: a number behind its code is no code of a place.
        obtain ⟨base, hbase, rfl⟩ := hnew.numbered_of_stem_mem hafter hlater hmember
        obtain ⟨stemPlace, hstemPlace⟩ := Numbered.exists_ofCounter_stem hnew hbase
        simp [Code.append_repr_ne_ofCounter hstemPlace hplain, hbefore, hafter]
      · have hsame := hplain.symm.trans (hnew.plain_of_stem_notMem hafter hlater)
        simp [Except.ok.inj hsame, hafter]

end Settled

end SelectorMangling.Catalog
