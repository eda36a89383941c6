import SelectorMangling.Proofs.Rewriting.Shrinking
import SelectorMangling.Proofs.Site.Making

/-!
# Names and codes never meet

Names have a separator inside, whatever the prefixes of framework selectors are.  Codes have none,
however often families are numbered and after whichever stems, even if the code of the stem has been
numbered itself.  So no name is spelled like a code.
-/

namespace SelectorMangling

namespace Catalog

/-- Names are compound, and codes are spelled like codes. -/
structure KeptApart (catalog : Catalog) : Prop where
  isCompound : ∀ name ∈ catalog.names, Extraction.IsCompound name.toList
  spelled : catalog.Spelled

theorem keptApart_empty : KeptApart empty where
  isCompound name hname := absurd hname (notMem_names_empty name)
  spelled := spelled_empty

namespace KeptApart

variable {catalog larger : Catalog}

theorem grows {rules : Rules} (happart : catalog.KeptApart)
    (hgrows : Grows rules.IsCandidate catalog larger) : larger.KeptApart where
  isCompound name hname := by
    rcases hgrows.mem_names hname with hold | ⟨kind, content, hcandidate⟩
    · exact happart.isCompound name hold
    · exact Rules.isCompound_of_mem_candidates hcandidate
  spelled := happart.spelled.grows hgrows

theorem deriveElevation (happart : catalog.KeptApart) (stem : String) :
    (catalog.deriveElevation stem).KeptApart where
  isCompound name hname := by
    rw [names_deriveElevation] at hname
    exact happart.isCompound name hname
  spelled := happart.spelled.deriveElevation stem

theorem notMem_codes (happart : catalog.KeptApart) {name : String} (hname : name ∈ catalog.names) :
    name ∉ catalog.codes :=
  fun hcode => (happart.spelled name hcode).not_isCompound (happart.isCompound name hname)

theorem notMem_names (happart : catalog.KeptApart) {text : String}
    (hplain : ¬Extraction.IsCompound text.toList) : text ∉ catalog.names :=
  fun hname => hplain (happart.isCompound text hname)

end KeptApart

end Catalog

namespace Site

/-- The catalogs that scans and numberings make of the empty one, one after another.  Each scan goes
through any files by the rules of any settings, and each numbering is that of any stem. -/
inductive Gathered : Catalog → Prop
  | empty : Gathered Catalog.empty
  /-- A scan, whether it fails or not. -/
  | scan {settings : Settings} {rules : Rules} {workspace : Workspace}
      (hrules : Rules.ofSettings settings = .ok rules) (root : Path)
      (hbefore : Gathered workspace.catalog) :
      Gathered (outcome (scan settings rules root) workspace).2.catalog
  | derive {catalog : Catalog} (hbefore : Gathered catalog) (stem : String) :
      Gathered (catalog.deriveElevation stem)

theorem Gathered.keptApart {catalog : Catalog} (hgathered : Gathered catalog) :
    catalog.KeptApart := by
  induction hgathered with
  | empty => exact Catalog.keptApart_empty
  | @scan settings rules workspace _ root _ ih =>
    exact ih.grows (grows_scan settings rules root workspace).2
  | derive _ stem ih => exact ih.deriveElevation stem

/-- No name is empty, none is spelled like the member of the counter, and none is a code of the
catalog. -/
theorem names_and_codes_apart {catalog : Catalog} (hgathered : Gathered catalog) :
    "" ∉ catalog.names ∧ Catalog.countKey ∉ catalog.names ∧
      ∀ name ∈ catalog.names, ∀ code ∈ catalog.codes, name ≠ code := by
  have happart := hgathered.keptApart
  refine ⟨happart.notMem_names ?_, happart.notMem_names ?_, ?_⟩
  · unfold Extraction.IsCompound
    decide
  · unfold Extraction.IsCompound
    decide
  · rintro name hname _ hcode rfl
    exact happart.notMem_codes hname hcode

/-- A scan of files that can be read gathers their candidates, as long as there are codes left. -/
theorem Gathered.of_provides {settings : Settings} {rules : Rules} {tree : FileTree} {root : Path}
    {contents : List (SourceKind × String)} (hrules : Rules.ofSettings settings = .ok rules)
    (hprovides : Provides tree settings root contents)
    (hroom : (Catalog.empty.grow (rules.stream contents)).exhausted = none) :
    Gathered (Catalog.empty.grow (rules.stream contents)).catalog := by
  obtain ⟨stats, scanned, hscan, -, hcatalog⟩ := exists_scan_of_room hprovides hroom { tree } rfl rfl
  have hgathered : Gathered (outcome (Site.scan settings rules root) { tree }).2.catalog :=
    .scan hrules root .empty
  rwa [hscan, hcatalog] at hgathered

/-- Names each of which begins with the one before it. -/
def nestedNames : List String := ["card-el", "card-el-top", "card-el-top-bar"]

def nestedFamilies : Catalog := (Catalog.empty.grow nestedNames).catalog

theorem gathered_nestedFamilies : Gathered nestedFamilies := by
  obtain ⟨rules, hrules, hstream⟩ :=
    exists_rules_of_style ".card-el .card-el-top .card-el-top-bar" nestedNames (by decide +kernel)
  have hroom : (Catalog.empty.grow nestedNames).exhausted = none := by decide +kernel
  have hgathered := Gathered.of_provides hrules (provides_pageTree _) (hstream.symm ▸ hroom)
  rwa [hstream] at hgathered

/-- The families of two stems are numbered, the second after a numbered code. -/
def numberedTwice : Catalog :=
  (nestedFamilies.deriveElevation "card-el").deriveElevation "card-el-top"

theorem codes_numberedTwice : numberedTwice.codes = ["a0", "a00", "a000"] := by
  decide +kernel

theorem names_and_codes_apart_numberedTwice :
    Gathered numberedTwice ∧ "a000" ∈ numberedTwice.codes ∧
      ∀ name ∈ numberedTwice.names, name ≠ "a000" := by
  have hgathered : Gathered numberedTwice :=
    (gathered_nestedFamilies.derive "card-el").derive "card-el-top"
  have hcode : "a000" ∈ numberedTwice.codes := by
    rw [codes_numberedTwice]
    decide
  obtain ⟨-, -, hapart⟩ := names_and_codes_apart hgathered
  exact ⟨hgathered, hcode, fun name hname => hapart name hname "a000" hcode⟩

end Site

end SelectorMangling
