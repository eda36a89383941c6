import SelectorMangling.Proofs.Catalog.Elevation
import SelectorMangling.Proofs.Catalog.Format
import SelectorMangling.Proofs.Catalog.Growth

/-!
# The family after numbering

Numbering writes the numbers of the members behind the code of their stem, which is the same as
setting the code of one member after another.  A numbered family is numbered as it is: names that
come in behind it do not change it when it is numbered again.
-/

namespace SelectorMangling

/-- Setting other keys leaves the first entry where it is. -/
theorem Assoc.foldl_set_cons {Key Value : Type} [DecidableEq Key] {first : Key × Value}
    {updates : List (Key × Value)} (hfirst : first.1 ∉ updates.map Prod.fst)
    (entries : List (Key × Value)) :
    updates.foldl (fun entries update => set update.1 update.2 entries) (first :: entries) =
      first :: updates.foldl (fun entries update => set update.1 update.2 entries) entries := by
  induction updates generalizing entries with
  | nil => rfl
  | cons update rest ih =>
    rw [List.map_cons, List.mem_cons, not_or] at hfirst
    rw [List.foldl_cons, List.foldl_cons, ← ih hfirst.2, set, if_neg (by simpa using hfirst.1)]

/-- The members among names with their codes, counted from `start` on. -/
def numberedMembers (stem base : String) (start : Nat) (names : List String) :
    List (String × String) :=
  ((names.filter (isFamilyMember stem)).zipIdx start).map fun member =>
    (member.1, base ++ Nat.repr member.2)

section Numbering

variable {stem base : String} {start : Nat} {entries : List (String × String)} {name code : String}

theorem numberFamily_cons_of_member (hmember : isFamilyMember stem name = true) :
    numberFamily stem base start ((name, code) :: entries) =
      (name, base ++ Nat.repr start) :: numberFamily stem base (start + 1) entries := by
  rw [numberFamily, if_pos hmember]

theorem numberFamily_cons_of_not_member (hmember : ¬isFamilyMember stem name = true) :
    numberFamily stem base start ((name, code) :: entries) =
      (name, code) :: numberFamily stem base start entries := by
  rw [numberFamily, if_neg hmember]

theorem numberedMembers_cons_of_member {names : List String}
    (hmember : isFamilyMember stem name = true) :
    numberedMembers stem base start (name :: names) =
      (name, base ++ Nat.repr start) :: numberedMembers stem base (start + 1) names := by
  rw [numberedMembers, List.filter_cons_of_pos hmember]
  rfl

theorem numberedMembers_cons_of_not_member {names : List String}
    (hmember : ¬isFamilyMember stem name = true) :
    numberedMembers stem base start (name :: names) = numberedMembers stem base start names := by
  rw [numberedMembers, List.filter_cons_of_neg hmember]
  rfl

theorem names_numberedMembers (stem base : String) (start : Nat) (names : List String) :
    (numberedMembers stem base start names).map Prod.fst = names.filter (isFamilyMember stem) := by
  rw [numberedMembers, List.map_map]
  exact List.zipIdx_map_fst _ _

/-- The members of the numbered family are in order, and what is no member is as it was. -/
theorem filter_numberFamily (stem base : String) (start : Nat) (entries : List (String × String)) :
    (numberFamily stem base start entries).filter (fun entry => isFamilyMember stem entry.1) =
        numberedMembers stem base start (entries.map Prod.fst) ∧
      (numberFamily stem base start entries).filter (fun entry => !isFamilyMember stem entry.1) =
        entries.filter fun entry => !isFamilyMember stem entry.1 := by
  induction entries generalizing start with
  | nil => exact ⟨rfl, rfl⟩
  | cons entry rest ih =>
    obtain ⟨name, code⟩ := entry
    rw [List.map_cons]
    by_cases hmember : isFamilyMember stem name = true
    · rw [numberFamily_cons_of_member hmember, numberedMembers_cons_of_member hmember,
        ← (ih (start + 1)).1]
      simp [hmember, (ih (start + 1)).2]
    · rw [numberFamily_cons_of_not_member hmember, numberedMembers_cons_of_not_member hmember,
        ← (ih start).1]
      simp [hmember, (ih start).2]

theorem numberFamily_append (stem base : String) (start : Nat)
    (front behind : List (String × String)) :
    numberFamily stem base start (front ++ behind) = numberFamily stem base start front ++
      numberFamily stem base (start + familySize stem (front.map Prod.fst)) behind := by
  induction front generalizing start with
  | nil => rfl
  | cons entry rest ih =>
    obtain ⟨name, code⟩ := entry
    by_cases hmember : isFamilyMember stem name = true
    · simp [numberFamily, hmember, ih, familySize, Nat.add_assoc, Nat.add_comm 1]
    · simp [numberFamily, hmember, ih, familySize]

/-- Numbering what is numbered changes nothing. -/
theorem numberFamily_numberFamily (stem base : String) (start : Nat)
    (entries : List (String × String)) :
    numberFamily stem base start (numberFamily stem base start entries) =
      numberFamily stem base start entries := by
  induction entries generalizing start with
  | nil => rfl
  | cons entry rest ih =>
    obtain ⟨name, code⟩ := entry
    by_cases hmember : isFamilyMember stem name = true <;> simp [numberFamily, hmember, ih]

/-- Numbering is setting the codes of the members one after another. -/
theorem numberFamily_eq_foldl (stem base : String) (start : Nat) (entries : List (String × String))
    (hnodup : (entries.map Prod.fst).Nodup) :
    numberFamily stem base start entries =
      (numberedMembers stem base start (entries.map Prod.fst)).foldl
        (fun entries update => Assoc.set update.1 update.2 entries) entries := by
  induction entries generalizing start with
  | nil => rfl
  | cons entry rest ih =>
    obtain ⟨name, code⟩ := entry
    rw [List.map_cons, List.nodup_cons] at hnodup
    have hfirst : ∀ start, name ∉
        (numberedMembers stem base start (rest.map Prod.fst)).map Prod.fst := by
      intro start
      rw [names_numberedMembers]
      exact fun hmem => hnodup.1 (List.mem_filter.mp hmem).1
    rw [List.map_cons]
    by_cases hmember : isFamilyMember stem name = true
    · rw [numberFamily_cons_of_member hmember, numberedMembers_cons_of_member hmember,
        List.foldl_cons, Assoc.set, if_pos (beq_self_eq_true name),
        Assoc.foldl_set_cons (hfirst _), ih _ hnodup.2]
    · rw [numberFamily_cons_of_not_member hmember, numberedMembers_cons_of_not_member hmember,
        Assoc.foldl_set_cons (hfirst _), ih _ hnodup.2]

end Numbering

namespace Catalog

variable {catalog later : Catalog} {stem base : String}

/-- Deriving the codes of a family is inserting its members one after another. -/
theorem deriveElevation_eq_foldl_insert (hbase : catalog.get? stem = some base) :
    catalog.deriveElevation stem = (numberedMembers stem base 0 catalog.names).foldl
      (fun catalog member => catalog.insert member.1 member.2) catalog := by
  have hentries : ∀ (members : List (String × String)) (start : Catalog),
      (members.foldl (fun catalog member => catalog.insert member.1 member.2) start).entries =
          members.foldl (fun entries update => Assoc.set update.1 update.2 entries) start.entries ∧
        (members.foldl (fun catalog member => catalog.insert member.1 member.2) start).count =
          start.count := by
    intro members
    induction members with
    | nil => exact fun _ => ⟨rfl, rfl⟩
    | cons member rest ih => exact fun start => ih (start.insert member.1 member.2)
  obtain ⟨hinserted, hcount⟩ := hentries (numberedMembers stem base 0 catalog.names) catalog
  apply eq_of_entries_eq
  · rw [hinserted, entries_deriveElevation hbase]
    exact numberFamily_eq_foldl stem base 0 catalog.entries catalog.names_nodup
  · rw [hcount, count_deriveElevation]

/-- The derived family: its members in order, numbered from zero. -/
theorem family_deriveElevation (hbase : catalog.get? stem = some base) :
    (catalog.deriveElevation stem).family stem = numberedMembers stem base 0 catalog.names := by
  rw [family, entries_deriveElevation hbase]
  exact (filter_numberFamily stem base 0 catalog.entries).1

/-- Deriving the codes of a family again changes nothing. -/
theorem deriveElevation_deriveElevation (catalog : Catalog) (stem : String) :
    (catalog.deriveElevation stem).deriveElevation stem = catalog.deriveElevation stem := by
  cases hbase : catalog.get? stem with
  | none =>
    have hnone := deriveElevation_of_notMem (get?_eq_none_iff.mp hbase)
    rw [hnone, hnone]
  | some base =>
    have hderived : (catalog.deriveElevation stem).get? stem = some base := by
      rw [get?_stem_deriveElevation, hbase]
    apply eq_of_entries_eq
    · rw [entries_deriveElevation hderived, entries_deriveElevation hbase,
        numberFamily_numberFamily]
    · rw [count_deriveElevation]

/-- The codes of other names are kept. -/
theorem get?_deriveElevation_of_not_member {name : String}
    (hmember : isFamilyMember stem name = false) :
    (catalog.deriveElevation stem).get? name = catalog.get? name := by
  cases hbase : catalog.get? stem with
  | none => rw [deriveElevation_of_notMem (get?_eq_none_iff.mp hbase)]
  | some base =>
    have hmem : ∀ code, (name, code) ∈ (catalog.deriveElevation stem).entries ↔
        (name, code) ∈ catalog.entries := by
      intro code
      have hsame := (filter_numberFamily stem base 0 catalog.entries).2
      rw [← entries_deriveElevation hbase] at hsame
      have hfilter := congrArg ((name, code) ∈ ·) hsame
      simpa [List.mem_filter, hmember] using hfilter
    apply Option.ext
    intro code
    rw [get?_eq_some_iff, get?_eq_some_iff, hmem]

theorem get?_deriveElevation_of_member (hbase : catalog.get? stem = some base) {place : Nat}
    {name : String} (hname : (catalog.names.filter (isFamilyMember stem))[place]? = some name) :
    (catalog.deriveElevation stem).get? name = some (base ++ Nat.repr place) := by
  rw [get?_eq_some_iff]
  have hmember : (name, base ++ Nat.repr place) ∈ (catalog.deriveElevation stem).family stem := by
    rw [family_deriveElevation hbase]
    apply List.mem_of_getElem? (i := place)
    simp [numberedMembers, hname]
  exact (List.mem_filter.mp hmember).1

/-- What comes in behind a derived family does not change it when it is derived again. -/
theorem entries_prefix_deriveElevation (hbase : catalog.get? stem = some base)
    (hfront : (catalog.deriveElevation stem).entries <+: later.entries) :
    (catalog.deriveElevation stem).entries <+: (later.deriveElevation stem).entries := by
  have hderived : (catalog.deriveElevation stem).get? stem = some base := by
    rw [get?_stem_deriveElevation, hbase]
  have hlater := get?_eq_some_of_prefix hfront hderived
  obtain ⟨behind, hbehind⟩ := hfront
  rw [entries_deriveElevation hlater, ← hbehind, numberFamily_append,
    entries_deriveElevation hbase, numberFamily_numberFamily]
  exact List.prefix_append _ _

/-- What deriving the codes of a family does.  Nothing happens as long as the stem has no code.
Otherwise the members of the family get the code of the stem with their place in the family behind,
and all other names keep their codes; and so do the members when more names have come in behind them
and the codes are derived again. -/
theorem deriveElevation_exact (catalog : Catalog) (stem : String) :
    match catalog.get? stem with
    | none => catalog.deriveElevation stem = catalog ∧ catalog.elevationCount stem = 0
    | some base =>
      let derived := catalog.deriveElevation stem
      let members := catalog.names.filter (isFamilyMember stem)
      derived.names = catalog.names ∧ derived.count = catalog.count ∧
        derived.get? stem = some base ∧
        (∀ name, ¬stem.toList <+: name.toList → derived.get? name = catalog.get? name) ∧
        (∀ place name, members[place]? = some name →
          derived.get? name = some (base ++ Nat.repr place)) ∧
        catalog.elevationCount stem = members.length ∧
        ∀ later : Catalog, derived.entries <+: later.entries →
          ∀ name ∈ catalog.names, (later.deriveElevation stem).get? name = derived.get? name := by
  cases hbase : catalog.get? stem with
  | none =>
    refine ⟨deriveElevation_of_notMem (get?_eq_none_iff.mp hbase), ?_⟩
    rw [elevationCount, hbase]
  | some base =>
    refine ⟨names_deriveElevation catalog stem, count_deriveElevation catalog stem, ?_, ?_, ?_, ?_,
      ?_⟩
    · rw [get?_stem_deriveElevation, hbase]
    · intro name hother
      apply get?_deriveElevation_of_not_member
      rw [← Bool.not_eq_true, isFamilyMember_iff]
      exact fun hmember => hother hmember.2
    · exact fun place name hname => get?_deriveElevation_of_member hbase hname
    · rw [elevationCount, hbase, family, names, List.filter_map, List.length_map]
      rfl
    · intro later hlater name hname
      rw [← names_deriveElevation catalog stem] at hname
      obtain ⟨code, hcode⟩ := exists_get?_of_mem_names hname
      rw [hcode]
      exact get?_eq_some_of_prefix (entries_prefix_deriveElevation hbase hlater) hcode

end Catalog

end SelectorMangling
