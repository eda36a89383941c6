import Mathlib.Data.List.Sort
import SelectorMangling.Proofs.Site.Source

/-!
# Where source files lie and in which order they come

A source file is a regular file with one of three extensions that lies directly in a feature folder.
A run goes through the source files folder by folder in the order of the paths.  In a folder scripts
come before the other files, and files of the same group come by name.
-/

namespace SelectorMangling

/-! ## Extensions -/

/-- The extension of the name at the end of a location. -/
def extensionAt (location : Location) : Option String := location.getLast?.bind Path.extensionOf?

theorem Path.Denotes.extension?_eq {path : Path} {location : Location}
    (hpath : path.Denotes location) : path.extension? = extensionAt location := by
  rw [extension?, fileName?, hpath, extensionAt]
  rcases List.eq_nil_or_concat location with rfl | ⟨front, last, rfl⟩
  · rfl
  · have hlast : (Component.root :: (front.concat last).map .name).getLast? =
        some (.name last) := by
      rw [List.concat_eq_append, List.map_append, ← List.cons_append]
      exact List.getLast?_concat
    rw [hlast, List.concat_eq_append, List.getLast?_concat]

theorem SourceKind.ofExtension?_eq_script_iff {extension : String} :
    ofExtension? extension = some .script ↔ extension = "js" := by
  unfold ofExtension?
  split <;> simp_all

theorem SourceKind.isSome_ofExtension?_iff {extension : String} :
    (ofExtension? extension).isSome ↔ extension ∈ ["js", "html", "css"] := by
  unfold ofExtension?
  split <;> simp_all

/-- Whether a path is that of a source file is told by the extension at the end of its location. -/
theorem SourceKind.isSome_ofPath?_iff {path : Path} {location : Location}
    (hpath : path.Denotes location) :
    (ofPath? path).isSome ↔
      ∃ extension ∈ ["js", "html", "css"], extensionAt location = some extension := by
  rw [ofPath?, hpath.extension?_eq]
  cases extensionAt location with
  | none => simp
  | some extension => simpa using isSome_ofExtension?_iff

namespace Site

variable {tree : FileTree} {settings : Settings} {root : Path} {base : Location}

/-! ## Feature folders and what lies in them -/

/-- A directory of a locale is searched and holds an index file. -/
structure IsFeatureFolder (tree : FileTree) (settings : Settings) (base folder : Location) :
    Prop where
  searched : ∃ names, folder = base ++ names ∧ ∀ name ∈ names, isSearched settings name = true
  index : ∃ content, tree.entryAt (folder ++ [settings.indexFile]) = some (.file content)

/-- A script, a page or a stylesheet lies directly in a feature folder of a locale. -/
structure LiesInFeatureFolder (tree : FileTree) (settings : Settings) (base location : Location) :
    Prop where
  file : ∃ content, tree.entryAt location = some (.file content)
  extension : ∃ extension ∈ ["js", "html", "css"], extensionAt location = some extension
  folder : IsFeatureFolder tree settings base location.dropLast

/-- The source files of a locale are the files with their extensions in its feature folders. -/
theorem IsRoot.isSource_iff_lies (hroot : IsRoot tree root base)
    (hindex : IsEntryName settings.indexFile) {location : Location} :
    IsSource tree settings root location ↔ LiesInFeatureFolder tree settings base location := by
  rw [hroot.isSource_iff]
  constructor
  · rintro ⟨names, name, content, rfl, hreached, hhas, hentry, hsome⟩
    have hbelow := hroot.below hreached
    have hpath := hbelow.denotes.child (hroot.plain.named _ _ hentry name (by simp))
    refine ⟨⟨content, hentry⟩, (SourceKind.isSome_ofPath?_iff hpath).mp hsome, ?_⟩
    rw [List.dropLast_concat]
    have hsearched := (hroot.plain.liesInDirectories.isReached_iff hbelow.directory).mp hreached
    exact ⟨⟨names, rfl, hsearched⟩, (hbelow.hasIndex_iff hindex).mp hhas⟩
  · rintro ⟨⟨content, hentry⟩, hextension, ⟨names, hfolder, hsearched⟩, hhas⟩
    rcases List.eq_nil_or_concat location with rfl | ⟨front, name, rfl⟩
    · simp at hentry
    · rw [List.concat_eq_append] at *
      rw [List.dropLast_concat] at hfolder hhas
      subst hfolder
      have hdirectory : tree.entryAt (base ++ names) = some .directory :=
        hroot.plain.liesInDirectories.entryAt_of_append (List.cons_ne_nil name [])
          (by rw [hentry]; rfl)
      have hreached := (hroot.plain.liesInDirectories.isReached_iff hdirectory).mpr hsearched
      have hbelow := hroot.below hreached
      have hpath := hbelow.denotes.child (hroot.plain.named _ _ hentry name (by simp))
      exact ⟨names, name, content, rfl, hreached, (hbelow.hasIndex_iff hindex).mpr hhas, hentry,
        (SourceKind.isSome_ofPath?_iff hpath).mpr hextension⟩

/-! ## The order -/

/-- A script stands at a location. -/
def IsScriptAt (location : Location) : Prop := extensionAt location = some "js"

instance (location : Location) : Decidable (IsScriptAt location) :=
  inferInstanceAs (Decidable (extensionAt location = some "js"))

/-- The order in which source files come: folders by their paths, scripts before the other files of a
folder, files of the same group by name. -/
def ComesBefore (left right : Location) : Prop :=
  left.dropLast < right.dropLast ∨ left.dropLast = right.dropLast ∧
    (IsScriptAt left ∧ ¬IsScriptAt right ∨ (IsScriptAt left ↔ IsScriptAt right) ∧ left < right)

instance (left right : Location) : Decidable (ComesBefore left right) :=
  inferInstanceAs (Decidable (left.dropLast < right.dropLast ∨ left.dropLast = right.dropLast ∧
    (IsScriptAt left ∧ ¬IsScriptAt right ∨ (IsScriptAt left ↔ IsScriptAt right) ∧ left < right)))

theorem ComesBefore.asymm {left right : Location} (hbefore : ComesBefore left right) :
    ¬ComesBefore right left := by
  rintro (hfolder | ⟨hfolder, hfile⟩)
  · rcases hbefore with hother | ⟨hother, -⟩
    · exact List.lt_asymm hfolder hother
    · exact List.lt_irrefl _ (hother ▸ hfolder)
  · rcases hbefore with hother | ⟨-, hother⟩
    · exact List.lt_irrefl _ (hfolder ▸ hother)
    · rcases hfile with ⟨hscript, hnone⟩ | ⟨hgroup, hname⟩
      · rcases hother with ⟨hleft, -⟩ | ⟨hsame, -⟩
        · exact hnone hleft
        · exact hnone (hsame.mpr hscript)
      · rcases hother with ⟨hleft, hright⟩ | ⟨-, hotherName⟩
        · exact hright (hgroup.mpr hleft)
        · exact List.lt_asymm hname hotherName

/-- Names are in order if they stand below one folder in order. -/
theorem append_singleton_lt (folder : Location) {left right : String} (hlt : left < right) :
    folder ++ [left] < folder ++ [right] := by
  apply List.append_left_lt
  exact List.Lex.rel hlt

theorem SourceFile.precedes_iff {left right : SourceFile} :
    left.precedes right = true ↔ left.kind = .script ∧ right.kind ≠ .script ∨
      (left.kind = .script ↔ right.kind = .script) ∧ left.name ≤ right.name := by
  unfold precedes
  by_cases hleft : left.kind = .script <;> by_cases hright : right.kind = .script <;>
    simp [hleft, hright]

theorem SourceFile.precedes_trans {left middle right : SourceFile}
    (hfirst : left.precedes middle = true) (hlast : middle.precedes right = true) :
    left.precedes right = true := by
  rw [precedes_iff] at *
  rcases hfirst with ⟨hleft, hmiddle⟩ | ⟨hsame, hname⟩
  · rcases hlast with ⟨hscript, -⟩ | ⟨hgroup, -⟩
    · exact absurd hscript hmiddle
    · exact .inl ⟨hleft, mt hgroup.mpr hmiddle⟩
  · rcases hlast with ⟨hscript, hright⟩ | ⟨hgroup, hotherName⟩
    · exact .inl ⟨hsame.mpr hscript, hright⟩
    · exact .inr ⟨hsame.trans hgroup, String.le_trans hname hotherName⟩

theorem SourceFile.precedes_total (left right : SourceFile) :
    (left.precedes right || right.precedes left) = true := by
  rw [Bool.or_eq_true, precedes_iff, precedes_iff]
  have hnames := String.le_total left.name right.name
  by_cases hleft : left.kind = .script <;> by_cases hright : right.kind = .script <;>
    simp [hleft, hright, hnames]

theorem SourceFile.precedes_antisymm {left right : SourceFile}
    (hbefore : left.precedes right = true) (hafter : right.precedes left = true) :
    left.name = right.name := by
  rw [precedes_iff] at *
  rcases hbefore with ⟨hleft, hright⟩ | ⟨hsame, hle⟩
  · rcases hafter with ⟨hscript, -⟩ | ⟨hgroup, -⟩
    · exact absurd hscript hright
    · exact absurd (hgroup.mpr hleft) hright
  · rcases hafter with ⟨hscript, hother⟩ | ⟨-, hge⟩
    · exact absurd (hsame.mpr hscript) hother
    · exact String.le_antisymm hle hge

/-- The order of files of different names. -/
structure SourceFile.Before (left right : SourceFile) : Prop where
  precedes : left.precedes right = true
  name_ne : left.name ≠ right.name

instance : DecidableRel SourceFile.Before := fun left right =>
  decidable_of_iff (left.precedes right = true ∧ left.name ≠ right.name)
    ⟨fun ⟨hprecedes, hne⟩ => ⟨hprecedes, hne⟩, fun ⟨hprecedes, hne⟩ => ⟨hprecedes, hne⟩⟩

instance : Std.Irrefl SourceFile.Before := ⟨fun _ hbefore => hbefore.name_ne rfl⟩

instance : Std.Antisymm SourceFile.Before :=
  ⟨fun _ _ hbefore hafter =>
    absurd (SourceFile.precedes_antisymm hbefore.precedes hafter.precedes) hbefore.name_ne⟩

/-- The source files of a folder come in order, and their names are different. -/
theorem pairwise_before_filesIn {folder : Path} {location : Location}
    (hfolder : tree.find folder = .ok (location, .directory)) :
    (filesIn tree folder).Pairwise SourceFile.Before := by
  have hsorted : (filesIn tree folder).Pairwise fun left right => left.precedes right = true := by
    simp only [filesIn, sourceFiles_of_find hfolder]
    apply List.pairwise_mergeSort
    · intro left middle right
      exact SourceFile.precedes_trans
    · exact SourceFile.precedes_total
  have hnames := List.pairwise_map.mp (nodup_filesIn_of_find hfolder)
  exact hsorted.imp₂ (fun _ _ => SourceFile.Before.mk) hnames

/-- Files in order are the source files of a folder if they are the ones that its entries are. -/
theorem sourceFiles_of_perm {folder : Path} {location : Location} {files : List SourceFile}
    (hfolder : tree.find folder = .ok (location, .directory))
    (hfound : ((tree.children location).filterMap fun child =>
      sourceFile? folder child.1 child.2).Perm files)
    (hordered : files.Pairwise SourceFile.Before) : sourceFiles tree folder = .ok files := by
  rw [sourceFiles_eq_filesIn hfolder]
  congr 1
  apply (pairwise_before_filesIn hfolder).eq_of_mem_iff hordered
  intro file
  rw [← hfound.mem_iff]
  simp only [filesIn, sourceFiles_of_find hfolder, List.mem_mergeSort]

/-- A folder has the same source files in another tree if it has the same files there. -/
theorem filesIn_eq_of_entryAt {later : FileTree} {folder : Path} {location place : Location}
    (hfolder : tree.find folder = .ok (location, .directory))
    (hlater : later.find folder = .ok (place, .directory))
    (hfiles : ∀ name content, later.entryAt (place ++ [name]) = some (.file content) ↔
      tree.entryAt (location ++ [name]) = some (.file content)) :
    filesIn later folder = filesIn tree folder := by
  apply (pairwise_before_filesIn hlater).eq_of_mem_iff (pairwise_before_filesIn hfolder)
  intro file
  rw [mem_filesIn_of_find hlater, mem_filesIn_of_find hfolder]
  simp only [hfiles]

namespace IsRoot

theorem kind_eq_script_iff (hroot : IsRoot tree root base) {file : SourceFile}
    (hfile : file ∈ filesIn tree root) :
    file.kind = .script ↔ IsScriptAt (base ++ [file.name]) := by
  obtain ⟨name, content, kind, hentry, hkind, rfl⟩ := (mem_filesIn_of_find hroot.find_eq).mp hfile
  have hname := hroot.plain.named _ _ hentry name (by simp)
  rw [SourceKind.ofPath?, (hroot.denotes.child hname).extension?_eq, Option.bind_eq_some_iff]
    at hkind
  obtain ⟨extension, hextension, hof⟩ := hkind
  rw [IsScriptAt, hextension, Option.some.injEq, ← SourceKind.ofExtension?_eq_script_iff, hof,
    Option.some.injEq]

theorem pairwise_filesIn (hroot : IsRoot tree root base) :
    (filesIn tree root).Pairwise fun left right =>
      ComesBefore (base ++ [left.name]) (base ++ [right.name]) := by
  apply (pairwise_before_filesIn hroot.find_eq).imp_of_mem
  rintro left right hleft hright ⟨hprecedes, hne⟩
  refine .inr ⟨by simp, ?_⟩
  rw [← hroot.kind_eq_script_iff hleft, ← hroot.kind_eq_script_iff hright]
  rcases SourceFile.precedes_iff.mp hprecedes with hgroups | ⟨hgroup, hle⟩
  · exact .inl hgroups
  · exact .inr ⟨hgroup, append_singleton_lt base (Std.lt_of_le_of_ne hle hne)⟩

/-- The directories of a locale are visited in the order of their paths. -/
theorem pairwise_visited (tree : FileTree) (admits : String → Bool) (base : Location) :
    ([] :: tree.directoriesBelow admits base).Pairwise (· < ·) := by
  refine List.pairwise_cons.mpr ⟨?_, ?_⟩
  · intro names hnames
    obtain ⟨name, rest, rfl⟩ :=
      List.exists_cons_of_ne_nil (FileTree.mem_directoriesBelow_iff.mp hnames).1
    exact List.nil_lt_cons name rest
  · have hsorted : (tree.directoriesBelow admits base).Pairwise fun left right =>
        ¬right < left := by
      rw [FileTree.directoriesBelow]
      have hle : ∀ left right : List String, (!right.lex left) = true ↔ ¬right < left := by
        intro left right
        rw [Bool.not_eq_true', ← Bool.not_eq_true, List.lex_eq_true_iff_lt]
      simp only [← hle]
      apply List.pairwise_mergeSort
      · intro left middle right hfirst hlast
        rw [hle, List.not_lt] at *
        exact List.le_trans hfirst hlast
      · intro left right
        rw [Bool.or_eq_true, hle, hle, List.not_lt, List.not_lt]
        exact List.le_total left right
    apply (hsorted.and (tree.nodup_directoriesBelow admits base)).imp
    rintro left right ⟨hnotAfter, hne⟩
    by_contra hnotBefore
    exact hne (List.le_antisymm (List.not_lt.mp hnotAfter) (List.not_lt.mp hnotBefore))

/-- The source files of a locale are gone through in their order. -/
theorem pairwise_sources (hroot : IsRoot tree root base) (settings : Settings) :
    (sources tree settings root).Pairwise fun left right =>
      ComesBefore left.path.location right.path.location := by
  have hlocation : ∀ names, tree.isReached (isSearched settings) base names = true →
      ∀ file ∈ filesIn tree (Site.below root names),
        file.path.location = base ++ names ++ [file.name] :=
    fun names hreached file hfile =>
      ((hroot.below hreached).of_mem_filesIn hfile).1.location_eq
  simp only [sources, hroot.featureFolders_eq]
  refine List.pairwise_flatMap.mpr ⟨?_, ?_⟩
  · intro folder hfolder
    obtain ⟨names, hvisited, rfl⟩ := List.mem_map.mp (List.mem_of_mem_filter hfolder)
    have hreached := mem_visited_iff.mp hvisited
    apply (hroot.below hreached).pairwise_filesIn.imp_of_mem
    intro left right hleft hright hbefore
    rwa [hlocation names hreached left hleft, hlocation names hreached right hright]
  · apply List.Pairwise.filter
    rw [List.pairwise_map]
    apply (pairwise_visited tree (isSearched settings) base).imp_of_mem
    intro left right hleft hright hlt leftFile hleftFile rightFile hrightFile
    rw [hlocation left (mem_visited_iff.mp hleft) leftFile hleftFile,
      hlocation right (mem_visited_iff.mp hright) rightFile hrightFile]
    apply Or.inl
    rw [List.dropLast_concat, List.dropLast_concat]
    exact List.append_left_lt hlt

/-- What is gone through before a source file are the source files that come before it. -/
theorem mem_earlier_iff (hroot : IsRoot tree root base) {earlier later : List SourceFile}
    {file : SourceFile} (hsplit : sources tree settings root = earlier ++ file :: later)
    {location : Location} :
    location ∈ earlier.map (fun other => other.path.location) ↔
      IsSource tree settings root location ∧ ComesBefore location file.path.location := by
  have hpairs := hroot.pairwise_sources settings
  rw [hsplit, List.pairwise_append, List.pairwise_cons] at hpairs
  obtain ⟨-, ⟨hlater, -⟩, hearlier⟩ := hpairs
  rw [← hroot.mem_locations_iff, hsplit, List.map_append, List.map_cons]
  constructor
  · intro hmem
    obtain ⟨other, hother, rfl⟩ := List.mem_map.mp hmem
    exact ⟨List.mem_append_left _ hmem, hearlier other hother file List.mem_cons_self⟩
  · rintro ⟨hmem, hbefore⟩
    rcases List.mem_append.mp hmem with hfirst | hrest
    · exact hfirst
    · rcases List.mem_cons.mp hrest with rfl | hlast
      · exact absurd hbefore hbefore.asymm
      · obtain ⟨other, hother, rfl⟩ := List.mem_map.mp hlast
        exact absurd hbefore (hlater other hother).asymm

end IsRoot

end Site

end SelectorMangling
