import Mathlib.Data.List.Infix
import Mathlib.Data.List.Nodup
import Mathlib.Data.List.Perm.Subperm
import SelectorMangling.Proofs.Rewriting.Splice

/-!
# Texts and catalogs that are rewritten alike

What is replaced at a place depends on the names that stand there and on the delimiter before them.
So two catalogs rewrite a text alike if the same names stand in it with the same codes, and a text
may be moved behind another one where that changes neither names nor delimiters.  The order of the
entries does not count, and neither do names that occur nowhere in the text.
-/

namespace SelectorMangling

/-! ## Entries in another order -/

namespace Catalog

variable {left right : Catalog}

theorem get?_eq_of_perm (hperm : left.entries.Perm right.entries) (name : String) :
    left.get? name = right.get? name := by
  apply Option.ext
  intro code
  rw [get?_eq_some_iff, get?_eq_some_iff, hperm.mem_iff]

/-- Catalogs agree if they count alike and have the same entries in any two orders. -/
theorem agrees_iff_perm :
    left.agrees right = true ↔ left.count = right.count ∧ left.entries.Perm right.entries := by
  simp only [agrees, size, Bool.and_eq_true, beq_iff_eq, List.all_eq_true, get?_eq_some_iff,
    and_assoc, and_congr_right_iff]
  intro _
  constructor
  · rintro ⟨hsize, hentries⟩
    have hsub : left.entries.Subperm right.entries :=
      List.subperm_of_subset left.names_nodup.of_map fun entry hentry => hentries entry hentry
    exact hsub.perm_of_length_le (Nat.le_of_eq hsize.symm)
  · intro hperm
    exact ⟨hperm.length_eq, fun entry hentry => hperm.mem_iff.mp hentry⟩

end Catalog

namespace Rewriting

/-! ## Places that are alike -/

/-- A place of a text under one catalog and a place of another text under another catalog are alike:
a delimiter stands before both or before neither, and the same names stand there with the same
codes. -/
structure Alike (left : Catalog) (text : List Char) (place : Nat) (right : Catalog)
    (other : List Char) (otherPlace : Nat) : Prop where
  delimited : isDelimited (text.take place).reverse = isDelimited (other.take otherPlace).reverse
  stands : ∀ name, Stands left text place name ↔ Stands right other otherPlace name
  codes : ∀ name, Stands left text place name → left.get? name = right.get? name

/-- A replacement in a text that stands behind `offset` further characters. -/
def Replacement.moved (offset : Nat) (replacement : Replacement) : Replacement :=
  { replacement with start := offset + replacement.start }

@[simp]
theorem Replacement.start_moved (offset : Nat) (replacement : Replacement) :
    (replacement.moved offset).start = offset + replacement.start := rfl

@[simp]
theorem Replacement.code_moved (offset : Nat) (replacement : Replacement) :
    (replacement.moved offset).code = replacement.code := rfl

@[simp]
theorem Replacement.stop_moved (offset : Nat) (replacement : Replacement) :
    (replacement.moved offset).stop = offset + replacement.stop :=
  Nat.add_assoc _ _ _

@[simp]
theorem Replacement.moved_zero : Replacement.moved 0 = id := by
  funext replacement
  simp [Replacement.moved]

variable {left right : Catalog} {text other : List Char} {place offset : Nat}
  {replacements : List Replacement}

/-- Where a name stands does not depend on the other entries of the catalog. -/
theorem Stands.of_mem {name : String} (hstands : Stands left text place name)
    (hcataloged : name ∈ right.names) : Stands right text place name :=
  ⟨hcataloged, hstands.occurs, hstands.starts, hstands.ends⟩

namespace Alike

variable {otherPlace : Nat}

theorem isCandidate_iff (halike : Alike left text place right other otherPlace) :
    IsCandidate left text place ↔ IsCandidate right other otherPlace := by
  rw [IsCandidate, IsCandidate, halike.delimited]
  simp only [halike.stands]

theorem standsLongest (halike : Alike left text place right other otherPlace) {name : String}
    (hlongest : StandsLongest left text place name) :
    StandsLongest right other otherPlace name where
  toStands := (halike.stands name).mp hlongest.toStands
  longest := fun longer hlonger => hlongest.longest longer ((halike.stands longer).mpr hlonger)

theorem isReplacement {replacement : Replacement}
    (halike : Alike left text replacement.start right other (offset + replacement.start))
    (hreplacement : IsReplacement left text replacement) :
    IsReplacement right other (replacement.moved offset) where
  candidate := halike.isCandidate_iff.mp hreplacement.candidate
  standsLongest := halike.standsLongest hreplacement.standsLongest
  code_eq := by
    have hcodes := halike.codes _ hreplacement.standsLongest.toStands
    exact hcodes.symm.trans hreplacement.code_eq

end Alike

/-- Where all places from one on are alike, the same replacements are chosen. -/
theorem Greedy.moved (offset : Nat) (hgreedy : Greedy left text place replacements)
    (halike : ∀ later, place ≤ later → Alike left text later right other (offset + later)) :
    Greedy right other (offset + place) (replacements.map (Replacement.moved offset)) := by
  induction hgreedy with
  | @done place hnone =>
    constructor
    intro later hlater
    obtain ⟨between, rfl⟩ := Nat.exists_eq_add_of_le hlater
    have hplace := Nat.le_add_right place between
    rw [Nat.add_assoc]
    exact mt (halike _ hplace).isCandidate_iff.mpr (hnone _ hplace)
  | @next place replacement later hplace hfirst hreplacement _ ih =>
    have hstop : place ≤ replacement.stop := Nat.le_add_right_of_le hplace
    have hlater := ih fun behind hbehind => halike behind (Nat.le_trans hstop hbehind)
    rw [← Replacement.stop_moved] at hlater
    refine .next (Nat.add_le_add_left hplace offset) ?_
      ((halike _ hplace).isReplacement hreplacement) hlater
    intro between hle hlt
    obtain ⟨passed, rfl⟩ := Nat.exists_eq_add_of_le hle
    have hpassed := Nat.le_add_right place passed
    rw [Nat.add_assoc] at hlt ⊢
    exact mt (halike _ hpassed).isCandidate_iff.mpr
      (hfirst _ hpassed (Nat.lt_of_add_lt_add_left hlt))

/-- Two catalogs rewrite a text alike if all its places are alike. -/
theorem rewrite_eq_of_alike (hleft : "" ∉ left.names) (hright : "" ∉ right.names) (text : String)
    (halike : ∀ place, Alike left text.toList place right text.toList place) :
    ∃ new, left.rewrite text = some new ∧ right.rewrite text = some new := by
  obtain ⟨replacements, hgreedy, hrewritten⟩ := exists_greedy_rewrite hleft text
  obtain ⟨others, hothers, hother⟩ := exists_greedy_rewrite hright text
  have hmoved : Greedy right text.toList 0 replacements := by
    simpa using hgreedy.moved 0 fun later _ => by simpa using halike later
  rw [hothers.unique hmoved] at hother
  exact ⟨_, hrewritten, hother⟩

/-! ## The same entries -/

/-- Catalogs with the same entries in any two orders rewrite all texts alike.  They agree if they
count alike, too, but rewriting does not look at that. -/
theorem rewrite_eq_of_perm (hperm : left.entries.Perm right.entries) (hnames : "" ∉ left.names) :
    (left.agrees right = true ↔ left.count = right.count) ∧
      ∀ text, ∃ new, left.rewrite text = some new ∧ right.rewrite text = some new := by
  have hsame : ∀ name, name ∈ left.names ↔ name ∈ right.names :=
    fun name => (hperm.map Prod.fst).mem_iff
  refine ⟨by rw [Catalog.agrees_iff_perm, and_iff_left hperm], ?_⟩
  intro text
  apply rewrite_eq_of_alike hnames (mt (hsame "").mpr hnames)
  intro place
  exact
    { delimited := rfl
      stands := by
        intro name
        exact ⟨fun hstands => hstands.of_mem ((hsame name).mp hstands.cataloged),
          fun hstands => hstands.of_mem ((hsame name).mpr hstands.cataloged)⟩
      codes := fun name _ => Catalog.get?_eq_of_perm hperm name }

/-- Two names of one length and a third one that begins both. -/
def listedNames : Catalog where
  entries := [("btn", "a0"), ("btn-a", "b1"), ("btn-b", "c")]
  count := 6

def shuffledNames : Catalog where
  entries := [("btn-b", "c"), ("btn", "a0"), ("btn-a", "b1")]
  count := 9

theorem rewrite_listedNames_eq_shuffledNames :
    listedNames.entries.Perm shuffledNames.entries ∧ "" ∉ listedNames.names ∧
      listedNames.agrees shuffledNames = false ∧
      ∃ new, listedNames.rewrite ".btn-a .btn-b-c" = some new ∧
        shuffledNames.rewrite ".btn-a .btn-b-c" = some new := by
  have hperm : listedNames.entries.Perm shuffledNames.entries := by decide
  have hnames : "" ∉ listedNames.names := by decide
  obtain ⟨hagrees, hrewrite⟩ := rewrite_eq_of_perm hperm hnames
  refine ⟨hperm, hnames, ?_, hrewrite _⟩
  rw [← Bool.not_eq_true, hagrees]
  decide

/-! ## More entries -/

/-- A catalog with more names, none of which occurs in a text, rewrites the text as before. -/
theorem rewrite_eq_of_subset {catalog larger : Catalog} {text : String}
    (hnames : "" ∉ catalog.names) (hkept : catalog.entries ⊆ larger.entries)
    (hadded : ∀ name ∈ larger.names, name ∉ catalog.names → ¬name.toList <:+: text.toList) :
    ∃ new, catalog.rewrite text = some new ∧ larger.rewrite text = some new := by
  have hlarger : "" ∉ larger.names := fun hmem => hadded "" hmem hnames List.nil_infix
  apply rewrite_eq_of_alike hnames hlarger
  intro place
  exact
    { delimited := rfl
      stands := by
        intro name
        constructor
        · intro hstands
          exact hstands.of_mem (List.map_subset _ hkept hstands.cataloged)
        · intro hstands
          apply hstands.of_mem
          by_contra hnew
          exact hadded name hstands.cataloged hnew
            (hstands.occurs.isInfix.trans (List.drop_suffix _ _).isInfix)
      codes := by
        intro name hstands
        obtain ⟨code, hcode⟩ := Catalog.exists_get?_of_mem_names hstands.cataloged
        have hlarge := hkept (Catalog.get?_eq_some_iff.mp hcode)
        rw [hcode, Catalog.get?_eq_some_iff.mpr hlarge] }

def plainName : Catalog where
  entries := [("btn-a", "b1")]
  count := 8

/-- The same name with others that extend it, contain it and overlap it. -/
def surroundedName : Catalog where
  entries := [("btn-a-x", "d0"), ("btn-a", "b1"), ("x.btn-a", "e1"), ("a-b", "f")]
  count := 4

theorem rewrite_surroundedName_eq_plainName :
    "" ∉ plainName.names ∧ plainName.entries ⊆ surroundedName.entries ∧
      (∀ name ∈ surroundedName.names, name ∉ plainName.names →
        ¬name.toList <:+: ".btn-a .btn-ab".toList) ∧
      ∃ new, plainName.rewrite ".btn-a .btn-ab" = some new ∧
        surroundedName.rewrite ".btn-a .btn-ab" = some new := by
  have hnames : "" ∉ plainName.names := by decide
  have hkept : plainName.entries ⊆ surroundedName.entries := by decide
  have hadded : ∀ name ∈ surroundedName.names, name ∉ plainName.names →
      ¬name.toList <:+: ".btn-a .btn-ab".toList := by decide
  exact ⟨hnames, hkept, hadded, rewrite_eq_of_subset hnames hkept hadded⟩

end Rewriting

end SelectorMangling
