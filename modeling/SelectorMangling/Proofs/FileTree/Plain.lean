import SelectorMangling.Proofs.FileTree.Content
import SelectorMangling.Proofs.FileTree.Listing
import SelectorMangling.Proofs.Path.Direct

/-!
# Trees without links

In a tree without links a path that leads straight down leads to what stands at its names, and to
nothing else.
-/

namespace SelectorMangling.FileTree

/-- Whether all entries have proper names, as in a file system. -/
def HasEntryNames (tree : FileTree) : Prop :=
  ∀ location entry, tree.entryAt location = some entry → ∀ name ∈ location, IsEntryName name

/-- Whether all entries lie in directories. -/
def LiesInDirectories (tree : FileTree) : Prop :=
  ∀ location name, (tree.entryAt (location ++ [name])).isSome →
    tree.entryAt location = some .directory

theorem hasEntryNames_iff {tree : FileTree} :
    tree.HasEntryNames ↔ ∀ member ∈ tree.entries, ∀ name ∈ member.1, IsEntryName name := by
  constructor
  · rintro hnamed ⟨location, entry⟩ hmem name hname
    exact hnamed _ _ ((mem_entries_iff (List.ne_nil_of_mem hname)).mp hmem) name hname
  · intro hentries location entry hentry name hname
    exact hentries _ ((mem_entries_iff (List.ne_nil_of_mem hname)).mpr hentry) name hname

/-- The names on the way to what is reached are proper ones. -/
theorem HasEntryNames.of_isReached {tree : FileTree} (hnamed : tree.HasEntryNames)
    {admits : String → Bool} {base : Location} {names : List String}
    (hreached : tree.isReached admits base names = true) : ∀ name ∈ names, IsEntryName name := by
  intro name hname
  have hentry := entryAt_of_isReached (List.ne_nil_of_mem hname) hreached
  exact hnamed _ _ hentry name (List.mem_append_right _ hname)

theorem liesInDirectories_iff {tree : FileTree} :
    tree.LiesInDirectories ↔ ∀ member ∈ tree.entries, member.1 ≠ [] →
      (tree.entryAt member.1.dropLast).any Entry.isDirectory = true := by
  constructor
  · rintro hlies ⟨location, entry⟩ hmem hbelow
    have hentry := (mem_entries_iff hbelow).mp hmem
    obtain ⟨front, last, rfl⟩ := List.eq_nil_or_concat location |>.resolve_left hbelow
    rw [List.concat_eq_append] at hentry ⊢
    rw [List.dropLast_concat, hlies front last (by rw [hentry]; rfl)]
    rfl
  · intro hentries location name hsome
    obtain ⟨entry, hentry⟩ := Option.isSome_iff_exists.mp hsome
    have hbelow : location ++ [name] ≠ [] := by simp
    have hparent := hentries _ ((mem_entries_iff hbelow).mpr hentry) hbelow
    rw [List.dropLast_concat] at hparent
    obtain ⟨found, hfound, hdirectory⟩ := Option.any_eq_true _ _ |>.mp hparent
    rw [hfound, Entry.eq_directory_of_isDirectory hdirectory]

instance (tree : FileTree) : Decidable tree.HasEntryNames := decidable_of_iff' _ hasEntryNames_iff

instance (tree : FileTree) : Decidable tree.LiesInDirectories :=
  decidable_of_iff' _ liesInDirectories_iff

namespace LiesInDirectories

variable {tree : FileTree}

/-- Above every entry there are directories only. -/
theorem entryAt_of_append (hlies : tree.LiesInDirectories) {location names : List String}
    (hbelow : names ≠ []) (hstands : (tree.entryAt (location ++ names)).isSome) :
    tree.entryAt location = some .directory := by
  induction names generalizing location with
  | nil => exact absurd rfl hbelow
  | cons name rest ih =>
    by_cases hrest : rest = []
    · rw [hrest] at hstands
      exact hlies location name hstands
    · rw [List.append_cons] at hstands
      apply hlies location name
      rw [ih hrest hstands]
      rfl

theorem entryAt_dropLast (hlies : tree.LiesInDirectories) {location : Location}
    (hstands : (tree.entryAt location).isSome) :
    tree.entryAt location.dropLast = some .directory := by
  rcases List.eq_nil_or_concat location with rfl | ⟨front, last, rfl⟩
  · rfl
  · rw [List.concat_eq_append] at hstands ⊢
    rw [List.dropLast_concat]
    exact hlies front last hstands

theorem entryAt_of_prefix (hlies : tree.LiesInDirectories) {location front : Location}
    (hdirectory : tree.entryAt location = some .directory) (hfront : front <+: location) :
    tree.entryAt front = some .directory := by
  obtain ⟨names, rfl⟩ := hfront
  by_cases hnames : names = []
  · rwa [hnames, List.append_nil] at hdirectory
  · exact hlies.entryAt_of_append hnames (by rw [hdirectory]; rfl)

/-- A directory is reached if all names that lead to it are admitted. -/
theorem isReached_iff (hlies : tree.LiesInDirectories) {admits : String → Bool}
    {base : Location} {names : List String}
    (hdirectory : tree.entryAt (base ++ names) = some .directory) :
    tree.isReached admits base names = true ↔ ∀ name ∈ names, admits name = true := by
  induction names generalizing base with
  | nil => simp [FileTree.isReached]
  | cons name rest ih =>
    rw [List.append_cons] at hdirectory
    have hfirst : tree.entryAt (base ++ [name]) = some .directory :=
      hlies.entryAt_of_prefix hdirectory (List.prefix_append _ _)
    rw [List.forall_mem_cons, ← ih hdirectory, FileTree.isReached, hfirst]
    simp [Entry.isDirectory]

end LiesInDirectories

/-- A tree as a file system without links holds it: entries have proper names and lie in
directories. -/
structure IsPlain (tree : FileTree) : Prop where
  link_free : ∀ location target, tree.entryAt location ≠ some (.link target)
  named : ∀ location entry, tree.entryAt location = some entry →
    ∀ name ∈ location, IsEntryName name
  parent : ∀ location name, (tree.entryAt (location ++ [name])).isSome →
    tree.entryAt location = some .directory

@[simp]
theorem entryAt_nil (tree : FileTree) : tree.entryAt [] = some .directory := rfl

/-- Whether a tree is plain can be told from its entries. -/
theorem isPlain_iff {tree : FileTree} :
    tree.IsPlain ↔
      (∀ member ∈ tree.entries, member.1 ≠ [] →
        (member.2.isDirectory || member.2.isFile) = true) ∧
      tree.HasEntryNames ∧ tree.LiesInDirectories := by
  constructor
  · intro hplain
    refine ⟨?_, hplain.named, hplain.parent⟩
    rintro ⟨location, entry⟩ hmem hbelow
    cases entry with
    | directory => rfl
    | file content => rfl
    | link target => exact absurd ((mem_entries_iff hbelow).mp hmem) (hplain.link_free _ _)
  · rintro ⟨hkinds, hnamed, hlies⟩
    refine ⟨?_, hnamed, hlies⟩
    intro location target hentry
    by_cases hbelow : location = []
    · subst hbelow
      simp at hentry
    · have hkind := hkinds _ ((mem_entries_iff hbelow).mpr hentry) hbelow
      exact absurd hkind (by simp [Entry.isDirectory, Entry.isFile])

instance (tree : FileTree) : Decidable tree.IsPlain := decidable_of_iff' _ isPlain_iff

/-- What a path comes to that ends at a location. -/
def targetAt (tree : FileTree) (location : Location) : Target :=
  match tree.entryAt location with
  | some entry => .found location entry
  | none => .vacant location

theorem targetAt_eq_found_iff {tree : FileTree} {location place : Location} {entry : Entry} :
    tree.targetAt location = .found place entry ↔
      place = location ∧ tree.entryAt location = some entry := by
  unfold targetAt
  cases tree.entryAt location with
  | none => simp
  | some found => simp [eq_comm]

theorem targetAt_eq_vacant_iff {tree : FileTree} {location place : Location} :
    tree.targetAt location = .vacant place ↔
      place = location ∧ tree.entryAt location = none := by
  unfold targetAt
  cases tree.entryAt location with
  | none => simp [eq_comm]
  | some found => simp

/-! ## Following steps -/

section Follow

variable {tree : FileTree} {followLast : Bool} {links : Nat} {directory : Location} {step : String}
  {rest : List String}

theorem follow_skip (hskip : Path.isMove step = false) :
    tree.follow followLast links directory (step :: rest) =
      tree.follow followLast links directory rest := by
  have hstep : step = "" ∨ step = "." := by
    rw [Path.isMove, Bool.and_eq_false_iff] at hskip
    simpa using hskip
  rw [follow, if_pos hstep]

/-- A move to a directory goes on from there. -/
theorem follow_into (hmove : Path.isMove step = true) (hparent : step ≠ "..")
    (hinto : tree.entryAt (directory ++ [step]) = some .directory) :
    tree.follow followLast links directory (step :: rest) =
      tree.follow followLast links (directory ++ [step]) rest := by
  have hstep : ¬(step = "" ∨ step = ".") := by simpa [Path.isMove] using hmove
  rw [follow, if_neg hstep, if_neg hparent]
  simp only [hinto]

variable (hlink : ∀ target, tree.entryAt (directory ++ [step]) ≠ some (.link target))
include hlink

/-- The last move ends at what stands there, or at nothing. -/
theorem follow_last (hmove : Path.isMove step = true) (hparent : step ≠ "..") :
    tree.follow followLast links directory [step] = .ok (tree.targetAt (directory ++ [step])) := by
  have hstep : ¬(step = "" ∨ step = ".") := by simpa [Path.isMove] using hmove
  rw [follow, if_neg hstep, if_neg hparent, targetAt]
  cases hentry : tree.entryAt (directory ++ [step]) with
  | none => simp [hentry]
  | some entry =>
    cases entry with
    | directory => simp [hentry, follow]
    | file content => simp [hentry]
    | link target => exact absurd hentry (hlink target)

/-- Nothing can be reached through what is no directory. -/
theorem follow_through (hmove : Path.isMove step = true) (hparent : step ≠ "..")
    (hentry : tree.entryAt (directory ++ [step]) ≠ some .directory) (hrest : rest ≠ []) :
    ∃ fault, tree.follow followLast links directory (step :: rest) = .error fault := by
  have hstep : ¬(step = "" ∨ step = ".") := by simpa [Path.isMove] using hmove
  rw [follow, if_neg hstep, if_neg hparent]
  cases hstands : tree.entryAt (directory ++ [step]) with
  | none => exact ⟨.notFound, by simp [hstands, hrest]⟩
  | some entry =>
    cases entry with
    | directory => exact absurd hstands hentry
    | file content => exact ⟨.notDirectory, by simp [hstands, hrest]⟩
    | link target => exact absurd hstands (hlink target)

end Follow

theorem eq_toUTF8_of_fromUTF8? {content : ByteArray} {text : String}
    (htext : String.fromUTF8? content = some text) : content = text.toUTF8 := by
  unfold String.fromUTF8? at htext
  split at htext
  · obtain rfl := Option.some.inj htext
    rfl
  · contradiction

namespace IsPlain

variable {tree : FileTree}

theorem liesInDirectories (hplain : tree.IsPlain) : tree.LiesInDirectories := hplain.parent

/-- What lies below something lies below a directory. -/
theorem not_dropLast_directory (hplain : tree.IsPlain) {location names : List String}
    (hentry : tree.entryAt location ≠ some .directory) (hnames : names ≠ []) :
    tree.entryAt (location ++ names).dropLast ≠ some .directory := by
  intro hdirectory
  rw [List.dropLast_append_of_ne_nil hnames] at hdirectory
  exact hentry (hplain.liesInDirectories.entryAt_of_prefix hdirectory (List.prefix_append _ _))

/-- Steps without double dots lead along their moves.  They get there if what is above is a
directory, and if they end in a move or at a directory. -/
theorem follow_eq_ok_iff (hplain : tree.IsPlain) {followLast : Bool} {links : Nat}
    {directory : Location} {steps : List String} {target : Target} (hsteps : ".." ∉ steps)
    (hdirectory : tree.entryAt directory = some .directory) :
    tree.follow followLast links directory steps = .ok target ↔
      tree.targetAt (directory ++ steps.filter Path.isMove) = target ∧
        tree.entryAt (directory ++ steps.filter Path.isMove).dropLast = some .directory ∧
        (Path.EndInMove steps ∨
          tree.entryAt (directory ++ steps.filter Path.isMove) = some .directory) := by
  induction steps generalizing directory with
  | nil =>
    have hstands : (tree.entryAt directory).isSome := by rw [hdirectory]; rfl
    simp [follow, hdirectory, hplain.liesInDirectories.entryAt_dropLast hstands, targetAt]
  | cons step rest ih =>
    obtain ⟨hparent, hrest⟩ := not_or.mp (mt List.mem_cons.mpr hsteps)
    cases hmove : Path.isMove step with
    | false =>
      rw [follow_skip hmove, ih hrest hdirectory, List.filter_cons_of_neg (by simp [hmove])]
      by_cases hnil : rest = []
      · simp [hnil, hmove, Path.EndInMove]
      · rw [Path.endInMove_cons_iff hnil]
    | true =>
      have hlink := hplain.link_free (directory ++ [step])
      rw [List.filter_cons_of_pos hmove]
      by_cases hnil : rest = []
      · rw [hnil, follow_last hlink hmove (Ne.symm hparent)]
        simp [hdirectory, Path.EndInMove, hmove]
      · rw [Path.endInMove_cons_iff hnil, List.append_cons]
        by_cases hinto : tree.entryAt (directory ++ [step]) = some .directory
        · rw [follow_into hmove (Ne.symm hparent) hinto, ih hrest hinto]
        · have hthrough : ∃ fault,
              tree.follow followLast links directory (step :: rest) = .error fault :=
            follow_through hlink hmove (Ne.symm hparent) hinto hnil
          obtain ⟨fault, hfault⟩ := hthrough
          rw [hfault]
          constructor
          · intro hok
            contradiction
          · rintro ⟨-, habove, hend⟩
            by_cases hnames : rest.filter Path.isMove = []
            · rcases hend with hlast | hdirectory
              · exact absurd hnames hlast.moves_ne_nil
              · rw [hnames, List.append_nil] at hdirectory
                exact absurd hdirectory hinto
            · exact absurd habove (hplain.not_dropLast_directory hinto hnames)

variable {path : Path} {location : Location}

theorem resolve_eq_ok_iff (hplain : tree.IsPlain) (hpath : path.Denotes location)
    {followLast : Bool} {target : Target} :
    tree.resolve followLast path = .ok target ↔
      tree.targetAt location = target ∧ tree.entryAt location.dropLast = some .directory ∧
        (path.EndsInMove ∨ tree.entryAt location = some .directory) := by
  have habsolute := hpath.isAbsolute
  have htext : path.text.isEmpty = false := by
    obtain ⟨rest, hrest⟩ := Path.isAbsolute_iff.mp habsolute
    rw [Bool.eq_false_iff, ne_eq, String.isEmpty_iff]
    intro hempty
    simp [hempty] at hrest
  obtain ⟨hmoves, hparent⟩ := hpath.moves_eq
  rw [resolve, htext, if_neg Bool.false_ne_true, if_pos habsolute,
    hplain.follow_eq_ok_iff hparent tree.entryAt_nil, hmoves, List.nil_append]
  rfl

theorem resolve_eq_found_iff (hplain : tree.IsPlain) (hpath : path.Denotes location)
    {followLast : Bool} {place : Location} {entry : Entry} :
    tree.resolve followLast path = .ok (.found place entry) ↔
      place = location ∧ tree.entryAt location = some entry ∧
        (path.EndsInMove ∨ entry = .directory) := by
  rw [hplain.resolve_eq_ok_iff hpath, targetAt_eq_found_iff]
  constructor
  · rintro ⟨⟨rfl, hentry⟩, -, hend⟩
    refine ⟨rfl, hentry, hend.imp_right ?_⟩
    intro hdirectory
    exact Option.some.inj (hentry.symm.trans hdirectory)
  · rintro ⟨rfl, hentry, hend⟩
    have habove := hplain.liesInDirectories.entryAt_dropLast (by rw [hentry]; rfl)
    refine ⟨⟨rfl, hentry⟩, habove, hend.imp_right ?_⟩
    rintro rfl
    exact hentry

/-- A path that leads straight down leads to what stands at its names.  Only to a directory it may
be written like the path of one. -/
theorem find_eq_ok_iff (hplain : tree.IsPlain) (hpath : path.Denotes location) {place : Location}
    {entry : Entry} :
    tree.find path = .ok (place, entry) ↔
      place = location ∧ tree.entryAt location = some entry ∧
        (path.EndsInMove ∨ entry = .directory) := by
  rw [FileTree.find_eq_ok_iff, hplain.resolve_eq_found_iff hpath]

theorem findLink_eq_ok_iff (hplain : tree.IsPlain) (hpath : path.Denotes location)
    {place : Location} {entry : Entry} :
    tree.findLink path = .ok (place, entry) ↔
      place = location ∧ tree.entryAt location = some entry ∧
        (path.EndsInMove ∨ entry = .directory) := by
  rw [← hplain.resolve_eq_found_iff hpath, findLink]
  cases tree.resolve false path with
  | error fault => simp [bind, Except.bind]
  | ok target => cases target <;> simp [bind, Except.bind, pure, Except.pure]

/-- A path leads to nothing where nothing stands in a directory. -/
theorem resolve_eq_vacant_iff (hplain : tree.IsPlain) (hpath : path.Denotes location)
    {followLast : Bool} {place : Location} :
    tree.resolve followLast path = .ok (.vacant place) ↔
      place = location ∧ tree.entryAt location = none ∧
        tree.entryAt location.dropLast = some .directory ∧ path.EndsInMove := by
  rw [hplain.resolve_eq_ok_iff hpath, targetAt_eq_vacant_iff]
  constructor
  · rintro ⟨⟨rfl, hvacant⟩, habove, hend⟩
    exact ⟨rfl, hvacant, habove, hend.resolve_right (by simp [hvacant])⟩
  · rintro ⟨rfl, hvacant, habove, hend⟩
    exact ⟨⟨rfl, hvacant⟩, habove, .inl hend⟩

theorem find_of_directory (hplain : tree.IsPlain) (hpath : path.Denotes location)
    (hdirectory : tree.entryAt location = some .directory) :
    tree.find path = .ok (location, .directory) :=
  (hplain.find_eq_ok_iff hpath).mpr ⟨rfl, hdirectory, .inr rfl⟩

theorem isDirectory_iff (hplain : tree.IsPlain) (hpath : path.Denotes location) :
    tree.isDirectory path = true ↔ tree.entryAt location = some .directory := by
  constructor
  · intro htrue
    unfold isDirectory at htrue
    split at htrue
    · next place entry hfind =>
      obtain ⟨rfl, hentry, -⟩ := (hplain.find_eq_ok_iff hpath).mp hfind
      rw [hentry, Entry.eq_directory_of_isDirectory htrue]
    · contradiction
  · intro hdirectory
    rw [isDirectory, hplain.find_of_directory hpath hdirectory]
    rfl

theorem isFile_iff (hplain : tree.IsPlain) (hpath : path.Denotes location) :
    tree.isFile path = true ↔
      path.EndsInMove ∧ ∃ content, tree.entryAt location = some (.file content) := by
  constructor
  · intro htrue
    unfold isFile at htrue
    split at htrue
    · next place entry hfind =>
      obtain ⟨rfl, hentry, hend⟩ := (hplain.find_eq_ok_iff hpath).mp hfind
      obtain ⟨content, rfl⟩ := Entry.exists_file_of_isFile htrue
      exact ⟨hend.resolve_right (by simp), content, hentry⟩
    · contradiction
  · rintro ⟨hend, content, hentry⟩
    rw [isFile, (hplain.find_eq_ok_iff hpath).mpr ⟨rfl, hentry, .inl hend⟩]
    rfl

/-- A text is read where a file holds its bytes. -/
theorem readText_eq_ok_iff (hplain : tree.IsPlain) (hpath : path.Denotes location)
    {text : String} :
    tree.readText path = .ok text ↔
      path.EndsInMove ∧ tree.entryAt location = some (.file text.toUTF8) := by
  constructor
  · intro hread
    obtain ⟨place, content, hfind, htext⟩ := find_of_readText hread
    obtain ⟨rfl, hentry, hend⟩ := (hplain.find_eq_ok_iff hpath).mp hfind
    rw [eq_toUTF8_of_fromUTF8? htext] at hentry
    exact ⟨hend.resolve_right (by simp), hentry⟩
  · rintro ⟨hend, hentry⟩
    exact readText_of_find ((hplain.find_eq_ok_iff hpath).mpr ⟨rfl, hentry, .inl hend⟩)
      (fromUTF8?_toUTF8 text)

end IsPlain

end SelectorMangling.FileTree
