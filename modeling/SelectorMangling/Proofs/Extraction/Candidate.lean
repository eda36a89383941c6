import SelectorMangling.Catalog.Format
import SelectorMangling.Rules

/-!
# Candidates are compound

Every rule of extraction yields names with a separator inside: a hyphen or an underscore.  So no
candidate is spelled like the member of a catalog file that holds the counter.
-/

namespace SelectorMangling

namespace Extraction

/-- What a search yields comes from a match somewhere in the text. -/
theorem exists_match_of_mem_search {matchAt? : List Char → Option Match} {text yield : List Char}
    (hyield : yield ∈ search matchAt? text) :
    ∃ rest hit, rest <:+ text ∧ matchAt? rest = some hit ∧ hit.yield = yield := by
  induction hlength : text.length using Nat.strongRecOn generalizing text with
  | ind length ih =>
    subst hlength
    cases text with
    | nil => simp [search, searchFrom] at hyield
    | cons c rest =>
      rw [search, searchFrom] at hyield
      split at hyield
      · next hnone =>
        obtain ⟨tail, hit, htail, hmatch, heq⟩ := ih rest.length (by simp) hyield rfl
        exact ⟨tail, hit, htail.trans (List.suffix_cons c rest), hmatch, heq⟩
      · next hit hsome =>
        rw [searchFrom_eq_reverse_append, List.mem_append] at hyield
        rcases hyield with hfirst | hlater
        · refine ⟨c :: rest, hit, List.suffix_refl _, hsome, ?_⟩
          simpa [eq_comm] using hfirst
        · have hlt : (rest.drop (hit.length - 1)).length < (c :: rest).length := by
            rw [List.length_drop, List.length_cons]
            exact Nat.lt_succ_of_le (Nat.sub_le _ _)
          obtain ⟨tail, later, htail, hmatch, heq⟩ := ih _ hlt hlater rfl
          have hsuffix := (List.drop_suffix (hit.length - 1) rest).trans (List.suffix_cons c rest)
          exact ⟨tail, later, htail.trans hsuffix, hmatch, heq⟩

/-- Whether characters hold a hyphen or an underscore. -/
def IsCompound (name : List Char) : Prop := '-' ∈ name ∨ '_' ∈ name

theorem isCompound_of_separator? {text separator : List Char}
    (hseparator : separator? text = some separator) : IsCompound separator := by
  unfold separator? at hseparator
  split at hseparator
  · cases hseparator
    exact .inl List.mem_cons_self
  · cases hseparator
    exact .inr List.mem_cons_self
  · contradiction

theorem isCompound_of_className? {text name : List Char} (hname : className? text = some name) :
    IsCompound name := by
  simp only [className?] at hname
  split at hname
  · contradiction
  · obtain ⟨separator, hseparator, hrest⟩ := Option.bind_eq_some_iff.mp hname
    obtain ⟨tail, -, htail⟩ := Option.bind_eq_some_iff.mp hrest
    cases htail
    exact (isCompound_of_separator? hseparator).imp
      (fun hmem => List.mem_append_left _ (List.mem_append_right _ hmem))
      (fun hmem => List.mem_append_left _ (List.mem_append_right _ hmem))

theorem isCompound_of_propertyName? {text name : List Char}
    (hname : propertyName? text = some name) : IsCompound name := by
  simp only [propertyName?] at hname
  split at hname
  · split at hname
    · contradiction
    · split at hname
      · cases hname
        exact .inl (List.mem_append_right _ List.mem_cons_self)
      · contradiction
  · contradiction

theorem isCompound_of_stemmedSelector? {text stem name : List Char}
    (hname : stemmedSelector? text stem = some name) : IsCompound name := by
  simp only [stemmedSelector?] at hname
  split at hname
  · obtain ⟨tail, -, rfl⟩ := Option.map_eq_some_iff.mp hname
    exact .inl (List.mem_append_left _ (List.mem_append_right _ List.mem_cons_self))
  · contradiction

/-- What all matches yield is had by each name that a search finds. -/
theorem of_mem_search {matchAt? : List Char → Option Match} (holds : List Char → Prop)
    (hmatches : ∀ {rest hit}, matchAt? rest = some hit → holds hit.yield) {text : List Char}
    {name : String} (hname : name ∈ (search matchAt? text).map String.ofList) :
    holds name.toList := by
  obtain ⟨characters, hyield, rfl⟩ := List.mem_map.mp hname
  obtain ⟨rest, hit, -, hmatch, rfl⟩ := exists_match_of_mem_search hyield
  rw [String.toList_ofList]
  exact hmatches hmatch

theorem exists_className?_of_mem {source name : String} (hname : name ∈ classNames source) :
    ∃ text, className? text = some name.toList := by
  apply of_mem_search (fun name => ∃ text, className? text = some name) _ hname
  intro rest hit hmatch
  unfold classNameMatch? at hmatch
  split at hmatch
  · obtain ⟨found, hfound, rfl⟩ := Option.map_eq_some_iff.mp hmatch
    exact ⟨_, hfound⟩
  · contradiction

theorem exists_propertyName?_of_mem {source name : String}
    (hname : name ∈ customProperties source) :
    ∃ text, propertyName? text = some name.toList := by
  apply of_mem_search (fun name => ∃ text, propertyName? text = some name) _ hname
  intro rest hit hmatch
  unfold customPropertyMatch? at hmatch
  split at hmatch
  · obtain ⟨found, hfound, rfl⟩ := Option.map_eq_some_iff.mp hmatch
    exact ⟨_, hfound⟩
  · contradiction

/-- A framework selector comes from one of the prefixes, which is empty if there are none. -/
theorem exists_stemmedSelector?_of_mem {stems : List String} {script name : String}
    (hname : name ∈ frameworkSelectors stems script) :
    ∃ text stem, (stem ∈ stems ∨ stem = "") ∧
      stemmedSelector? text stem.toList = some name.toList := by
  apply of_mem_search (fun name => ∃ text stem, (stem ∈ stems ∨ stem = "") ∧
    stemmedSelector? text stem.toList = some name) _ hname
  intro rest hit hmatch
  obtain ⟨found, hfound, rfl⟩ := Option.map_eq_some_iff.mp hmatch
  obtain ⟨_, hmem, hstem⟩ := List.exists_of_findSome?_eq_some hfound
  obtain ⟨stem, hstemMem, rfl⟩ := List.mem_map.mp hmem
  refine ⟨rest, stem, ?_, hstem⟩
  split at hstemMem
  · exact .inr (List.mem_singleton.mp hstemMem)
  · exact .inl hstemMem

end Extraction

namespace Rules

/-- A candidate is found by one of the three rules. -/
theorem exists_of_mem_candidates {rules : Rules} {kind : SourceKind} {content name : String}
    (hname : name ∈ rules.candidates kind content) :
    (∃ text, Extraction.className? text = some name.toList) ∨
      (∃ text, Extraction.propertyName? text = some name.toList) ∨
      ∃ text stem, (stem ∈ rules.stems ∨ stem = "") ∧
        Extraction.stemmedSelector? text stem.toList = some name.toList := by
  rcases mem_candidates_iff.mp hname with
    ⟨⟨source, -, hclass⟩, -⟩ | ⟨source, -, hproperty⟩ | ⟨-, hselector, -⟩
  · exact .inl (Extraction.exists_className?_of_mem hclass)
  · exact .inr (.inl (Extraction.exists_propertyName?_of_mem hproperty))
  · exact .inr (.inr (Extraction.exists_stemmedSelector?_of_mem hselector))

theorem isCompound_of_mem_candidates {rules : Rules} {kind : SourceKind} {content name : String}
    (hname : name ∈ rules.candidates kind content) : Extraction.IsCompound name.toList := by
  rcases exists_of_mem_candidates hname with
    ⟨text, hclass⟩ | ⟨text, hproperty⟩ | ⟨text, stem, -, hselector⟩
  · exact Extraction.isCompound_of_className? hclass
  · exact Extraction.isCompound_of_propertyName? hproperty
  · exact Extraction.isCompound_of_stemmedSelector? hselector

/-- No candidate is spelled like the member of the counter. -/
theorem countKey_notMem_candidates (rules : Rules) (kind : SourceKind) (content : String) :
    Catalog.countKey ∉ rules.candidates kind content := by
  intro hmem
  have hplain : ¬Extraction.IsCompound Catalog.countKey.toList := by
    unfold Extraction.IsCompound
    decide
  exact hplain (isCompound_of_mem_candidates hmem)

end Rules

end SelectorMangling
