import SelectorMangling.Proofs.FileTree.Bare

/-!
# What listings hold

The children of a directory are what stands one name below it, and a walk visits what is reached
through admitted directories.  Neither lists anything twice.
-/

namespace SelectorMangling.FileTree

variable {tree : FileTree} {base location : Location}

theorem mem_entries_iff {entry : Entry} (hbelow : location ≠ []) :
    (location, entry) ∈ tree.entries ↔ tree.entryAt location = some entry := by
  rw [entryAt, if_neg (by simpa using hbelow), Assoc.lookup_eq_some_iff tree.locations_nodup]

theorem pairwise_entries (tree : FileTree) :
    tree.entries.Pairwise fun left right => left.1 ≠ right.1 :=
  List.pairwise_map.mp tree.locations_nodup

/-! ## Children -/

theorem childOf_eq_some_iff {place : Location} {found entry : Entry} {name : String} :
    (match place.getLast? with
      | some name => if place.dropLast = location then some (name, found) else none
      | none => none) = some (name, entry) ↔
      place = location ++ [name] ∧ found = entry := by
  rcases List.eq_nil_or_concat place with rfl | ⟨front, last, rfl⟩
  · simp
  · rw [List.concat_eq_append, List.getLast?_concat, List.dropLast_concat]
    by_cases hfront : front = location <;> simp [hfront]

theorem mem_children_iff {name : String} {entry : Entry} :
    (name, entry) ∈ tree.children location ↔ tree.entryAt (location ++ [name]) = some entry := by
  rw [← mem_entries_iff (by simp), children, List.mem_filterMap]
  constructor
  · rintro ⟨⟨place, found⟩, hmem, hsome⟩
    obtain ⟨rfl, rfl⟩ := childOf_eq_some_iff.mp hsome
    exact hmem
  · intro hmem
    exact ⟨_, hmem, childOf_eq_some_iff.mpr ⟨rfl, rfl⟩⟩

/-- The children of a directory have different names. -/
theorem nodup_children (tree : FileTree) (location : Location) :
    ((tree.children location).map Prod.fst).Nodup := by
  rw [List.Nodup, List.pairwise_map, children]
  apply tree.pairwise_entries.filterMap
  rintro left right hne leftChild hleft rightChild hright hname
  obtain ⟨hleftPlace, -⟩ := childOf_eq_some_iff.mp hleft
  obtain ⟨hrightPlace, -⟩ := childOf_eq_some_iff.mp hright
  rw [hleftPlace, hrightPlace, hname] at hne
  exact hne rfl

/-! ## Walks -/

theorem namesBelow_eq_some_iff {place : Location} {found : Entry} {names : List String} :
    (if found.isDirectory && base.isPrefixOf place && place != base then
        some (place.drop base.length)
      else none) = some names ↔
      place = base ++ names ∧ names ≠ [] ∧ found.isDirectory = true := by
  constructor
  · intro hsome
    split at hsome
    · next hbelow =>
      simp only [Bool.and_eq_true, bne_iff_ne, List.isPrefixOf_iff_prefix] at hbelow
      obtain ⟨⟨hdirectory, later, rfl⟩, hne⟩ := hbelow
      obtain rfl : later = names := by simpa using hsome
      exact ⟨rfl, by simpa using hne, hdirectory⟩
    · contradiction
  · rintro ⟨rfl, hnames, hdirectory⟩
    simp [hnames, hdirectory]

/-- What is reached is a directory. -/
theorem entryAt_of_isReached {admits : String → Bool} {names : List String} (hbelow : names ≠ [])
    (hreached : tree.isReached admits base names = true) :
    tree.entryAt (base ++ names) = some .directory := by
  induction names generalizing base with
  | nil => contradiction
  | cons name rest ih =>
    simp only [isReached, Bool.and_eq_true, Option.any_eq_true] at hreached
    obtain ⟨⟨-, entry, hentry, hdirectory⟩, hrest⟩ := hreached
    obtain rfl := Entry.eq_directory_of_isDirectory hdirectory
    by_cases hnil : rest = []
    · rw [hnil]
      exact hentry
    · rw [List.append_cons]
      exact ih hnil hrest

theorem entryAt_append_of_isReached {admits : String → Bool} {names : List String}
    (hbase : tree.entryAt base = some .directory)
    (hreached : tree.isReached admits base names = true) :
    tree.entryAt (base ++ names) = some .directory := by
  by_cases hnames : names = []
  · rwa [hnames, List.append_nil]
  · exact entryAt_of_isReached hnames hreached

/-- One more directory is reached if the one above it is. -/
theorem isReached_concat_iff {admits : String → Bool} {names : List String} {name : String} :
    tree.isReached admits base (names ++ [name]) = true ↔
      tree.isReached admits base names = true ∧ admits name = true ∧
        tree.entryAt (base ++ names ++ [name]) = some .directory := by
  induction names generalizing base with
  | nil =>
    simp only [List.nil_append, List.append_nil, isReached, Bool.and_true, Bool.and_eq_true,
      Option.any_eq_true, true_and]
    refine and_congr_right fun _ => ⟨?_, fun hentry => ⟨_, hentry, rfl⟩⟩
    rintro ⟨entry, hentry, hdirectory⟩
    rw [hentry, Entry.eq_directory_of_isDirectory hdirectory]
  | cons first rest ih =>
    simp only [List.cons_append, isReached, Bool.and_eq_true, ih, and_assoc, List.append_assoc,
      List.nil_append]

/-- What is reached depends only on what lies below. -/
theorem isReached_congr {later : FileTree}
    (hsame : ∀ location, base <+: location → later.entryAt location = tree.entryAt location)
    (admits : String → Bool) (names : List String) :
    later.isReached admits base names = tree.isReached admits base names := by
  induction names generalizing base with
  | nil => rfl
  | cons name rest ih =>
    have hbelow : ∀ location, base ++ [name] <+: location →
        later.entryAt location = tree.entryAt location :=
      fun location hprefix => hsame location ((List.prefix_append _ _).trans hprefix)
    rw [isReached, isReached, hbelow _ (List.prefix_refl _), ih hbelow]

/-- What is reached stays reached where directories stay. -/
theorem isReached_of_entryAt_mono {later : FileTree}
    (hmono : ∀ location, tree.entryAt location = some .directory →
      later.entryAt location = some .directory)
    {admits : String → Bool} {names : List String}
    (hreached : tree.isReached admits base names = true) :
    later.isReached admits base names = true := by
  induction names generalizing base with
  | nil => rfl
  | cons name rest ih =>
    have hdirectory : tree.entryAt (base ++ [name]) = some .directory := by
      simp only [isReached, Bool.and_eq_true, Option.any_eq_true] at hreached
      obtain ⟨⟨-, entry, hentry, hentryDirectory⟩, -⟩ := hreached
      rwa [← Entry.eq_directory_of_isDirectory hentryDirectory]
    simp only [isReached, Bool.and_eq_true] at hreached ⊢
    refine ⟨⟨hreached.1.1, ?_⟩, ih hreached.2⟩
    rw [hmono _ hdirectory]
    rfl

theorem mem_directoriesBelow_iff {admits : String → Bool} {names : List String} :
    names ∈ tree.directoriesBelow admits base ↔
      names ≠ [] ∧ tree.isReached admits base names = true := by
  rw [directoriesBelow, List.mem_mergeSort, List.mem_filter, List.mem_filterMap]
  constructor
  · rintro ⟨⟨⟨place, found⟩, -, hsome⟩, hreached⟩
    exact ⟨(namesBelow_eq_some_iff.mp hsome).2.1, hreached⟩
  · rintro ⟨hbelow, hreached⟩
    have hentry := entryAt_of_isReached hbelow hreached
    exact ⟨⟨_, (mem_entries_iff (by simp [hbelow])).mpr hentry,
      namesBelow_eq_some_iff.mpr ⟨rfl, hbelow, rfl⟩⟩, hreached⟩

/-- Nothing is below a directory that holds no directory. -/
theorem directoriesBelow_of_childless
    (hchildless : (tree.children base).all fun child => !child.2.isDirectory)
    (admits : String → Bool) : tree.directoriesBelow admits base = [] := by
  rw [List.eq_nil_iff_forall_not_mem]
  intro names hnames
  obtain ⟨hbelow, hreached⟩ := mem_directoriesBelow_iff.mp hnames
  obtain ⟨name, rest, rfl⟩ := List.exists_cons_of_ne_nil hbelow
  simp only [isReached, Bool.and_eq_true, Option.any_eq_true] at hreached
  obtain ⟨⟨-, entry, hentry, hdirectory⟩, -⟩ := hreached
  have hchild := List.all_eq_true.mp hchildless (name, entry) (mem_children_iff.mpr hentry)
  simp [hdirectory] at hchild

theorem nodup_directoriesBelow (tree : FileTree) (admits : String → Bool) (base : Location) :
    (tree.directoriesBelow admits base).Nodup := by
  rw [directoriesBelow, (List.mergeSort_perm _ _).nodup_iff]
  apply List.Pairwise.filter
  apply tree.pairwise_entries.filterMap
  intro left right hne leftNames hleft rightNames hright hnames
  obtain ⟨hleftPlace, -⟩ := namesBelow_eq_some_iff.mp hleft
  obtain ⟨hrightPlace, -⟩ := namesBelow_eq_some_iff.mp hright
  rw [hleftPlace, hrightPlace, hnames] at hne
  exact hne rfl

end SelectorMangling.FileTree
