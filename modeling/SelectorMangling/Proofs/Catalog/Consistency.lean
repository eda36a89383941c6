import Mathlib.Data.List.Nodup
import SelectorMangling.Catalog.Consistency
import SelectorMangling.Catalog.Elevation

/-!
# What an accepted catalog tells

A catalog whose codes all differ has as many codes as names.  Validation compares either number with
the counter, so an accepted catalog is free of shared codes exactly if both of them are the counter.
-/

namespace SelectorMangling

theorem distinctCount_le_length (texts : List String) : distinctCount texts ≤ texts.length := by
  induction texts with
  | nil => exact Nat.le_refl 0
  | cons text rest ih =>
    rw [distinctCount, List.length_cons]
    split
    · exact Nat.le_succ_of_le ih
    · exact Nat.succ_le_succ ih

theorem distinctCount_eq_length_iff {texts : List String} :
    distinctCount texts = texts.length ↔ texts.Nodup := by
  induction texts with
  | nil => simp [distinctCount]
  | cons text rest ih =>
    rw [distinctCount, List.length_cons, List.nodup_cons, ← ih]
    have hle := distinctCount_le_length rest
    split
    · next hmem =>
      constructor
      · intro heq
        exact absurd hle (by rw [heq]; exact Nat.not_succ_le_self _)
      · rintro ⟨habsent, -⟩
        exact absurd hmem habsent
    · next habsent =>
      rw [Nat.add_right_cancel_iff]
      exact ⟨fun heq => ⟨habsent, heq⟩, And.right⟩

namespace Catalog

/-- Different names of a catalog have different codes, as far as the names are `among` some. -/
def CodesDiffer (catalog : Catalog) (among : String → Prop) : Prop :=
  ∀ left ∈ catalog.names, ∀ right ∈ catalog.names, among left → among right → left ≠ right →
    catalog.get? left ≠ catalog.get? right

theorem codesDiffer_iff {catalog : Catalog} :
    (catalog.CodesDiffer fun _ => True) ↔ catalog.codes.Nodup := by
  rw [codes, List.nodup_map_iff_inj_on catalog.names_nodup.of_map]
  constructor
  · rintro hdiffer ⟨left, code⟩ hleft ⟨right, _⟩ hright rfl
    by_contra hne
    refine hdiffer left (List.mem_map_of_mem hleft) right (List.mem_map_of_mem hright) trivial
      trivial (fun heq => hne (by rw [heq])) ?_
    rw [get?_eq_some_iff.mpr hleft, get?_eq_some_iff.mpr hright]
  · intro hinjective left hleft right hright _ _ hne hsame
    obtain ⟨code, hcode⟩ := exists_get?_of_mem_names hleft
    have hpair := hinjective _ (get?_eq_some_iff.mp hcode) _
      (get?_eq_some_iff.mp (hsame.symm.trans hcode)) rfl
    exact hne (congrArg Prod.fst hpair)

theorem distinctCodes_eq_size_iff {catalog : Catalog} :
    catalog.distinctCodes = catalog.size ↔ catalog.codes.Nodup := by
  rw [distinctCodes, ← distinctCount_eq_length_iff, size, codes, List.length_map]

theorem validate_eq_ok_iff {catalog : Catalog} :
    catalog.validate = .ok () ↔
      catalog.distinctCodes = catalog.count ∨ catalog.size = catalog.count := by
  unfold validate
  split
  · next haccepted => exact iff_of_true rfl haccepted
  · next hrejected => exact iff_of_false (by simp) hrejected

/-- An accepted catalog has the counter's number of codes or of names.  If it has both, different
names have different codes, whether they belong to a family or not; if it has only one of them, two
of its names share a code. -/
theorem codes_of_validate {catalog : Catalog} (hvalid : catalog.validate = .ok ()) (stem : String) :
    (catalog.distinctCodes = catalog.count ∨ catalog.size = catalog.count) ∧
      (catalog.distinctCodes = catalog.count → catalog.size = catalog.count →
        catalog.CodesDiffer fun name => isFamilyMember stem name = false) ∧
      (¬(catalog.distinctCodes = catalog.count ∧ catalog.size = catalog.count) →
        ¬catalog.CodesDiffer fun _ => True) := by
  have haccepted := validate_eq_ok_iff.mp hvalid
  refine ⟨haccepted, fun hcodes hnames => ?_, fun hone hdiffer => hone ?_⟩
  · have hdiffer := codesDiffer_iff.mpr (distinctCodes_eq_size_iff.mp (hcodes.trans hnames.symm))
    intro left hleft right hright _ _
    exact hdiffer left hleft right hright trivial trivial
  · have heq := distinctCodes_eq_size_iff.mpr (codesDiffer_iff.mp hdiffer)
    rw [heq] at haccepted ⊢
    exact and_self_iff.mpr (or_self_iff.mp haccepted)

/-- Two names with a code each. -/
def twoCodes : Catalog where
  entries := [("foo-bar", "c"), ("baz-qux", "d")]
  count := 2
  names_nodup := by decide

/-- Two names that share a code. -/
def sharedCode : Catalog where
  entries := [("foo-bar", "c"), ("baz-qux", "c")]
  count := 2
  names_nodup := by decide

theorem codes_of_validate_twoCodes :
    twoCodes.validate = .ok () ∧
      twoCodes.CodesDiffer fun name => isFamilyMember "mat-elevation-z" name = false := by
  have hvalid : twoCodes.validate = .ok () := by decide
  exact ⟨hvalid, (codes_of_validate hvalid "mat-elevation-z").2.1 (by decide) (by decide)⟩

/-- Names may share a code in an accepted catalog. -/
theorem exists_validate_sharing :
    ∃ (catalog : Catalog) (stem : String), catalog.validate = .ok () ∧
      ¬catalog.CodesDiffer fun name => isFamilyMember stem name = false := by
  refine ⟨sharedCode, "mat-elevation-z", by decide, fun hdiffer => ?_⟩
  exact hdiffer "foo-bar" (by decide) "baz-qux" (by decide) (by decide) (by decide) (by decide)
    (by decide)

end Catalog

end SelectorMangling
