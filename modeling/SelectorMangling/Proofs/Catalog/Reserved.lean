import SelectorMangling.Proofs.Catalog.Elevation
import SelectorMangling.Proofs.Catalog.Growth
import SelectorMangling.Proofs.Code

/-!
# Codes that are element names

The code of a counter is never the name of an HTML element.  Numbering a family writes a number
behind the code of its stem without looking at what that spells: behind the code `h` it spells
headings.  Nothing else ever makes a code an element name.
-/

namespace SelectorMangling

namespace Code

theorem exists_heading_of_digit :
    ∀ tag ∈ builtinTags, (tag.toList.any Char.isDigit) = true →
      ∃ level < 7, 1 ≤ level ∧ tag = "h" ++ Nat.repr level := by
  decide +kernel

theorem any_isDigit_append_repr (base : String) (place : Nat) :
    ((base ++ place.repr).toList.any Char.isDigit) = true := by
  obtain ⟨digit, hdigit⟩ : ∃ digit, digit ∈ place.repr.toList := by
    apply List.exists_mem_of_ne_nil
    rw [Nat.toList_repr]
    exact Nat.toDigits_ne_nil
  rw [String.toList_append, List.any_append, List.any_eq_true.mpr ⟨digit, hdigit, ?_⟩, Bool.or_true]
  exact isDigit_of_mem_repr hdigit

/-- A letter and a digit can be taken for a text and a number in one way only. -/
theorem eq_of_append_repr_eq_heading {base : String} {place level : Nat} (hlevel : level < 7)
    (heq : base ++ place.repr = "h" ++ level.repr) : base = "h" ∧ place = level := by
  have hdigit : level.repr.toList = [level.digitChar] := by
    rw [Nat.toList_repr, Nat.toDigits_of_lt_base (by omega)]
  have hlist := congrArg String.toList heq
  rw [String.toList_append, String.toList_append, hdigit] at hlist
  cases hbase : base.toList with
  | nil =>
    rw [hbase] at hlist
    have hletter : 'h' ∈ place.repr.toList := by simp_all
    exact absurd (isDigit_of_mem_repr hletter) (by decide)
  | cons first rest =>
    rw [hbase, List.cons_append] at hlist
    obtain ⟨rfl, hrest⟩ := List.cons.inj hlist
    rcases List.append_eq_singleton_iff.mp hrest with ⟨rfl, hplace⟩ | ⟨-, hnothing⟩
    · refine ⟨String.toList_inj.mp hbase, repr_injective (String.toList_inj.mp ?_)⟩
      rw [hplace, hdigit]
    · rw [Nat.toList_repr] at hnothing
      exact absurd hnothing Nat.toDigits_ne_nil

/-- A code with a number behind it is an element name only if it spells a heading. -/
theorem isBuiltinTag_append_repr_iff {base : String} {place : Nat} :
    isBuiltinTag (base ++ place.repr) = true ↔ base = "h" ∧ 1 ≤ place ∧ place ≤ 6 := by
  constructor
  · intro htag
    have hmem : base ++ place.repr ∈ builtinTags := by simpa [isBuiltinTag] using htag
    obtain ⟨level, hlevel, hpos, heq⟩ :=
      exists_heading_of_digit _ hmem (any_isDigit_append_repr base place)
    obtain ⟨rfl, rfl⟩ := eq_of_append_repr_eq_heading hlevel heq
    exact ⟨rfl, hpos, Nat.le_of_lt_succ hlevel⟩
  · rintro ⟨rfl, hpos, hle⟩
    have hplaces : ∀ place, place ≤ 6 → 1 ≤ place → isBuiltinTag ("h" ++ place.repr) = true := by
      decide +kernel
    exact hplaces place hle hpos

/-- No code of a counter is an element name. -/
theorem isBuiltinTag_of_ofCounter {counter : Nat} {code : String}
    (hcode : ofCounter counter = .ok code) : isBuiltinTag code = false := by
  unfold ofCounter at hcode
  split at hcode
  · contradiction
  · next letters _ =>
    split at hcode
    · next hspelled =>
      obtain rfl := Except.ok.inj hcode
      rw [Bool.eq_false_iff]
      intro htag
      rw [(isBuiltinTag_append_repr_iff.mp htag).1] at hspelled
      exact absurd hspelled (by decide +kernel)
    · next hplain =>
      obtain rfl := Except.ok.inj hcode
      simpa using hplain

end Code

/-- Every number below the size of a family is that of a member. -/
theorem exists_place_of_lt_familySize {stem : String} {names : List String} {number : Nat}
    (hlt : number < familySize stem names) :
    ∃ place name, names[place]? = some name ∧ isFamilyMember stem name = true ∧
      familySize stem (names.take place) = number := by
  induction names generalizing number with
  | nil => simp [familySize] at hlt
  | cons first rest ih =>
    cases hmember : isFamilyMember stem first with
    | false =>
      obtain ⟨place, name, hname, hfound, hnumber⟩ := ih (by simpa [familySize, hmember] using hlt)
      exact ⟨place + 1, name, hname, hfound, by simpa [familySize, hmember] using hnumber⟩
    | true =>
      cases number with
      | zero => exact ⟨0, first, rfl, hmember, rfl⟩
      | succ number =>
        obtain ⟨place, name, hname, hfound, hnumber⟩ :=
          ih (by simpa [familySize, hmember] using hlt)
        exact ⟨place + 1, name, hname, hfound, by simpa [familySize, hmember] using hnumber⟩

namespace Catalog

theorem length_family (catalog : Catalog) (stem : String) :
    (catalog.family stem).length = familySize stem catalog.names := by
  rw [family, familySize, names, List.countP_map, List.countP_eq_length_filter]
  rfl

/-- A catalog that is made from the empty one by adding new names and by numbering families.  The
family of a stem is numbered only in catalogs that are `admitted` with it. -/
inductive Assembled (admitted : Catalog → String → Prop) : Catalog → Prop
  | empty : Assembled admitted empty
  | add {catalog larger : Catalog} {name code : String} (hbefore : Assembled admitted catalog)
      (hnew : name ∉ catalog.names) (hadd : catalog.add name = .ok (code, larger)) :
      Assembled admitted larger
  | derive {catalog : Catalog} {stem : String} (hbefore : Assembled admitted catalog)
      (hadmitted : admitted catalog stem) : Assembled admitted (catalog.deriveElevation stem)

/-- Whether some code of a catalog is an element name. -/
def HoldsTag (catalog : Catalog) : Prop := ∃ code ∈ catalog.codes, Code.isBuiltinTag code = true

/-- Whether numbering the family of a stem spells a heading: the stem has the code `h`, and there is
a member behind the first one. -/
def SpellsHeading (catalog : Catalog) (stem : String) : Prop :=
  catalog.get? stem = some "h" ∧ 2 ≤ (catalog.family stem).length

theorem exists_getElem?_of_mem_codes {catalog : Catalog} {code : String}
    (hcode : code ∈ catalog.codes) :
    ∃ (place : Nat) (name : String), catalog.entries[place]? = some (name, code) := by
  obtain ⟨⟨name, _⟩, hentry, rfl⟩ := List.mem_map.mp hcode
  obtain ⟨place, hplace⟩ := List.getElem?_of_mem hentry
  exact ⟨place, name, hplace⟩

theorem not_holdsTag_add {catalog larger : Catalog} {name code : String}
    (hnew : name ∉ catalog.names) (hadd : catalog.add name = .ok (code, larger))
    (hfree : ¬catalog.HoldsTag) : ¬larger.HoldsTag := by
  obtain ⟨hcode, hentries, -⟩ := add_eq_ok hnew hadd
  rintro ⟨tag, htag, hspelled⟩
  rw [codes, hentries, List.map_append, List.mem_append] at htag
  rcases htag with hold | hlast
  · exact hfree ⟨tag, hold, hspelled⟩
  · obtain rfl := List.mem_singleton.mp hlast
    rw [Code.isBuiltinTag_of_ofCounter hcode] at hspelled
    contradiction

/-- Numbering a family brings in an element name only by spelling a heading. -/
theorem spellsHeading_of_holdsTag {catalog : Catalog} {stem : String} (hfree : ¬catalog.HoldsTag)
    (htag : (catalog.deriveElevation stem).HoldsTag) : catalog.SpellsHeading stem := by
  obtain ⟨code, hcode, hspelled⟩ := htag
  cases hbase : catalog.get? stem with
  | none =>
    rw [deriveElevation_of_notMem (get?_eq_none_iff.mp hbase)] at hcode
    exact absurd ⟨code, hcode, hspelled⟩ hfree
  | some base =>
    obtain ⟨place, name, hentry⟩ := exists_getElem?_of_mem_codes hcode
    obtain ⟨old, hold, rfl⟩ := exists_getElem?_of_deriveElevation hbase hentry
    cases hmember : isFamilyMember stem name with
    | false =>
      rw [hmember, if_neg Bool.false_ne_true] at hspelled
      exact absurd ⟨old, List.mem_map_of_mem (List.mem_of_getElem? hold), hspelled⟩ hfree
    | true =>
      rw [hmember, if_pos rfl] at hspelled
      obtain ⟨rfl, hpos, -⟩ := Code.isBuiltinTag_append_repr_iff.mp hspelled
      have hname : catalog.names[place]? = some name := by
        rw [names, List.getElem?_map, hold]
        rfl
      have hplace : place < catalog.names.length := (List.getElem?_eq_some_iff.mp hname).1
      have hlarger := familySize_take_lt hplace hname hmember
      rw [List.take_length, ← length_family] at hlarger
      exact ⟨hbase, Nat.lt_of_le_of_lt hpos hlarger⟩

/-- Behind the code `h` the second member of a family is the first heading. -/
theorem holdsTag_of_spellsHeading {catalog : Catalog} {stem : String}
    (hspells : catalog.SpellsHeading stem) : (catalog.deriveElevation stem).HoldsTag := by
  obtain ⟨hbase, hsize⟩ := hspells
  rw [length_family] at hsize
  obtain ⟨place, name, hname, hmember, hnumber⟩ := exists_place_of_lt_familySize hsize
  rw [names, List.getElem?_map, Option.map_eq_some_iff] at hname
  obtain ⟨⟨found, old⟩, hentry, rfl⟩ := hname
  have hheading : (found, "h" ++ Nat.repr 1) ∈ (catalog.deriveElevation stem).entries := by
    rw [entries_deriveElevation hbase]
    apply List.mem_of_getElem? (i := place)
    rw [getElem?_numberFamily, hentry, Option.map_some, if_pos hmember, List.map_take, ← names,
      hnumber]
  have hspelled : Code.isBuiltinTag ("h" ++ Nat.repr 1) = true :=
    Code.isBuiltinTag_append_repr_iff.mpr ⟨rfl, by decide, by decide⟩
  exact ⟨_, List.mem_map_of_mem hheading, hspelled⟩

/-- As long as no numbering has spelled a heading, no code is an element name, and the next
numbering brings one in exactly if it spells a heading. -/
theorem holdsTag_of_assembled {catalog : Catalog}
    (hassembled : Assembled (fun earlier stem => ¬earlier.SpellsHeading stem) catalog) :
    ¬catalog.HoldsTag ∧
      ∀ stem, (catalog.deriveElevation stem).HoldsTag ↔ catalog.SpellsHeading stem := by
  have hfree : ¬catalog.HoldsTag := by
    induction hassembled with
    | empty => simp [HoldsTag, codes, empty]
    | add _ hnew hadd ih => exact not_holdsTag_add hnew hadd ih
    | derive _ hadmitted ih => exact fun htag => hadmitted (spellsHeading_of_holdsTag ih htag)
  exact ⟨hfree, fun stem => ⟨spellsHeading_of_holdsTag hfree, holdsTag_of_spellsHeading⟩⟩

theorem Assembled.of_grows {admitted : Catalog → String → Prop} {allowed : String → Prop}
    {catalog larger : Catalog} (hassembled : Assembled admitted catalog)
    (hgrows : Grows allowed catalog larger) : Assembled admitted larger := by
  induction hgrows with
  | refl => exact hassembled
  | add _ hnew _ hadd ih => exact ih.add hnew hadd

/-- What adding a stem as the eighth name and two members behind it makes of the empty catalog. -/
def lateFamily : Catalog :=
  (empty.grow ["c-01", "c-02", "c-03", "c-04", "c-05", "c-06", "c-07", "m-el", "m-el1",
    "m-el2"]).catalog

theorem assembled_lateFamily (admitted : Catalog → String → Prop) :
    Assembled admitted lateFamily := by
  have hgrows : Grows (fun _ => True) empty lateFamily := grows_grow _ fun _ _ => trivial
  exact Assembled.empty.of_grows hgrows

theorem spellsHeading_lateFamily : lateFamily.SpellsHeading "m-el" := by
  constructor
  · decide +kernel
  · decide +kernel

theorem holdsTag_of_assembled_lateFamily :
    ¬lateFamily.HoldsTag ∧ (lateFamily.deriveElevation "m-el").HoldsTag := by
  have ⟨hfree, hnext⟩ := holdsTag_of_assembled (assembled_lateFamily _)
  exact ⟨hfree, (hnext "m-el").mpr spellsHeading_lateFamily⟩

/-- Numbering a family can bring in an element name. -/
theorem exists_assembled_holdsTag :
    ∃ catalog, Assembled (fun _ _ => True) catalog ∧ catalog.HoldsTag :=
  ⟨_, (assembled_lateFamily _).derive trivial, holdsTag_of_spellsHeading spellsHeading_lateFamily⟩

end Catalog

end SelectorMangling
