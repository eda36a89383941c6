import SelectorMangling.Proofs.FileTree.Directories
import SelectorMangling.Proofs.FileTree.Links

/-!
# Trees that a file was saved to

The directories above a file are made where they are missing, wherever links lead, and the file is
written at last.  Nothing else changes, and where all this has been done it changes nothing.
-/

namespace SelectorMangling

theorem Path.separator_notMem_of_mem_steps {path : Path} {step : String}
    (hstep : step ∈ path.steps) : '/' ∉ step.toList := by
  obtain ⟨segment, hsegment, rfl⟩ := List.mem_map.mp hstep
  rw [String.toList_ofList]
  exact separator_notMem_of_mem_segments hsegment

namespace FileTree

variable {tree later larger : FileTree} {path : Path} {location place : Location}

/-- A tree as a file system holds it: entries have proper names and lie in directories, and the
current directory is there. -/
structure IsSound (tree : FileTree) : Prop where
  named : tree.HasEntryNames
  lies : tree.LiesInDirectories
  current : tree.entryAt tree.current = some .directory

theorem IsPlain.isSound (hplain : tree.IsPlain)
    (hcurrent : tree.entryAt tree.current = some .directory) : tree.IsSound :=
  ⟨hplain.named, hplain.parent, hcurrent⟩

theorem Written.isSound {allowed : Location → Prop} (hwritten : Written allowed tree later)
    (hsound : tree.IsSound) : later.IsSound where
  named := hwritten.hasEntryNames hsound.named
  lies := hwritten.liesInDirectories hsound.lies
  current := by
    rw [hwritten.current_eq]
    exact hwritten.entryAt_directory hsound.current

/-! ## What a path leads to -/

/-- What a path leads to stands where it is found, and where nothing is, a directory lacks a name. -/
def Target.StandsIn (tree : FileTree) : Target → Prop
  | .found location entry => tree.entryAt location = some entry
  | .vacant location => tree.entryAt location = none ∧ ∃ directory name,
      location = directory ++ [name] ∧ tree.entryAt directory = some .directory ∧ IsEntryName name

/-- Steps from a directory lead to what stands in the tree. -/
theorem Leads.standsIn (hlies : tree.LiesInDirectories) {followLast : Bool} {links : Nat}
    {start : Location} {steps : List String} {target : Target}
    (hleads : tree.Leads followLast links start steps target)
    (hsteps : ∀ step ∈ steps, '/' ∉ step.toList) (hstart : tree.entryAt start = some .directory) :
    target.StandsIn tree := by
  induction hleads with
  | arrived => exact hstart
  | stay _ _ ih => exact ih (List.forall_mem_cons.mp hsteps).2 hstart
  | up _ ih =>
    have habove := hlies.entryAt_dropLast (by rw [hstart]; rfl)
    exact ih (List.forall_mem_cons.mp hsteps).2 habove
  | @missing _ start step hstep hentry =>
    obtain ⟨hempty, hdot⟩ := not_or.mp hstep.moves
    exact ⟨hentry, start, step, rfl, hstart,
      ⟨hempty, hdot, hstep.not_parent, (List.forall_mem_cons.mp hsteps).1⟩⟩
  | enter _ hentry _ ih => exact ih (List.forall_mem_cons.mp hsteps).2 hentry
  | file _ hentry | link _ _ hentry => exact hentry
  | through _ _ _ _ ih =>
    refine ih ?_ ?_
    · intro later hlater
      rcases List.mem_append.mp hlater with hgoal | hrest
      · exact Path.separator_notMem_of_mem_steps hgoal
      · exact (List.forall_mem_cons.mp hsteps).2 later hrest
    · split
      · rfl
      · exact hstart

namespace IsSound

theorem standsIn_of_resolve (hsound : tree.IsSound) {followLast : Bool} {target : Target}
    (hresolve : tree.resolve followLast path = .ok target) : target.StandsIn tree := by
  obtain ⟨-, hleads⟩ := resolve_eq_ok_iff_leads.mp hresolve
  refine hleads.standsIn hsound.lies (fun _ => Path.separator_notMem_of_mem_steps) ?_
  rw [startOf]
  split
  · rfl
  · exact hsound.current

theorem entryAt_of_find (hsound : tree.IsSound) {entry : Entry}
    (hfind : tree.find path = .ok (location, entry)) : tree.entryAt location = some entry :=
  hsound.standsIn_of_resolve (find_eq_ok_iff.mp hfind)

/-- Where a path leads to nothing, a file or a directory can be put. -/
theorem takes_of_vacant (hsound : tree.IsSound) {followLast : Bool}
    (hresolve : tree.resolve followLast path = .ok (.vacant place)) {entry : Entry}
    (hentry : ∀ target, entry ≠ .link target) : tree.Takes place entry := by
  obtain ⟨hfree, directory, name, rfl, hdirectory, hname⟩ := hsound.standsIn_of_resolve hresolve
  exact .free hdirectory hname hfree hentry

end IsSound

/-! ## What is put there -/

/-- A later tree differs from an earlier one in directories that were missing, and in what stands at
one place. -/
structure Furnished (place : Location) (tree later : FileTree) : Prop where
  written : Written (fun _ => True) tree later
  entryAt_eq_or : ∀ location, location ≠ place →
    later.entryAt location = tree.entryAt location ∨
      tree.entryAt location = none ∧ later.entryAt location = some .directory

namespace Furnished

variable {middle : FileTree}

theorem refl (place : Location) (tree : FileTree) : Furnished place tree tree where
  written := .refl
  entryAt_eq_or _ _ := .inl rfl

theorem trans (hfirst : Furnished place tree middle) (hlast : Furnished place middle later) :
    Furnished place tree later where
  written := hfirst.written.trans hlast.written
  entryAt_eq_or := by
    intro location hne
    rcases hlast.entryAt_eq_or location hne with hsame | ⟨hnone, hmade⟩
    · rw [hsame]
      exact hfirst.entryAt_eq_or location hne
    · rcases hfirst.entryAt_eq_or location hne with hsame | ⟨-, hdirectory⟩
      · exact .inr ⟨hsame ▸ hnone, hmade⟩
      · rw [hdirectory] at hnone
        contradiction

theorem directory (place : Location) (htakes : tree.Takes location .directory) :
    Furnished place tree (tree.set location .directory) where
  written := Written.refl.put trivial htakes
  entryAt_eq_or := by
    intro other _
    by_cases hother : other = location
    · have hmade := htakes.entryAt_set_self
      subst hother
      cases htakes with
      | free _ _ hfree _ => exact .inr ⟨hfree, hmade⟩
    · exact .inl (tree.entryAt_set_of_ne _ hother)

theorem file {content : ByteArray} (htakes : tree.Takes place (.file content)) :
    Furnished place tree (tree.set place (.file content)) where
  written := Written.refl.put trivial htakes
  entryAt_eq_or _ hne := .inl (tree.entryAt_set_of_ne _ hne)

/-- Elsewhere no file comes in, and none goes or becomes another one. -/
theorem entryAt_file_iff (hfurnished : Furnished place tree later) (hne : location ≠ place)
    {content : ByteArray} :
    later.entryAt location = some (.file content) ↔
      tree.entryAt location = some (.file content) := by
  rcases hfurnished.entryAt_eq_or location hne with hsame | ⟨hnone, hmade⟩
  · rw [hsame]
  · simp [hnone, hmade]

theorem entryAt_link_iff (hfurnished : Furnished place tree later) (hne : location ≠ place)
    {target : Path} :
    later.entryAt location = some (.link target) ↔
      tree.entryAt location = some (.link target) := by
  rcases hfurnished.entryAt_eq_or location hne with hsame | ⟨hnone, hmade⟩
  · rw [hsame]
  · simp [hnone, hmade]

end Furnished

/-! ## Walks -/

theorem Written.exists_findLink {allowed : Location → Prop} (hwritten : Written allowed tree later)
    {entry : Entry} (hfind : tree.findLink path = .ok (location, entry)) :
    ∃ new, later.findLink path = .ok (location, new) ∧ new.bare = entry.bare := by
  obtain ⟨new, hnew, hbare⟩ := hwritten.exists_resolve (resolve_of_findLink hfind)
  exact ⟨new, findLink_of_resolve hnew, hbare⟩

/-- A walk that begins at a directory begins there in the same way later. -/
theorem exists_walk_of_find {root : Path} {base : Location}
    (hfind : tree.find root = .ok (base, .directory)) (admits : String → Bool) :
    ∃ own : List (List String), (own = [] ∨ own = [[]]) ∧
      ∀ later, Written (fun _ => True) tree later →
        later.walk admits root = .ok (own ++ later.directoriesBelow admits base) := by
  by_cases hlink : tree.IsLink root
  · obtain ⟨location, target, hfound⟩ := hlink
    refine ⟨[], .inl rfl, fun later hwritten => ?_⟩
    obtain ⟨new, hnew, hbare⟩ := hwritten.exists_findLink hfound
    rw [Entry.eq_of_bare_eq hbare (by simp)] at hnew
    exact walk_of_link hnew (hwritten.find_directory hfind) admits
  · refine ⟨[[]], .inr rfl, fun later hwritten => ?_⟩
    obtain ⟨new, hnew, hbare⟩ :=
      hwritten.exists_findLink ((findLink_of_find hfind).resolve_right hlink)
    rw [walk, hnew, Entry.eq_of_bare_eq hbare (by simp)]
    rfl

/-- A walk that begins at something else visits nothing, and so it does later. -/
theorem walk_eq_nil_of_written {root : Path} {admits : String → Bool}
    {visited : List (List String)} (hwalk : tree.walk admits root = .ok visited)
    (hother : ∀ base, tree.find root ≠ .ok (base, .directory))
    (hwritten : Written (fun _ => True) tree later) : later.walk admits root = .ok [] := by
  cases hlink : tree.findLink root with
  | error fault => simp [walk, hlink, bind, Except.bind] at hwalk
  | ok found =>
    obtain ⟨location, entry⟩ := found
    obtain ⟨new, hnew, hbare⟩ := hwritten.exists_findLink hlink
    cases entry with
    | directory => exact absurd (find_of_findLink (by simp) hlink) (hother location)
    | file content =>
      obtain ⟨other, rfl⟩ := Entry.exists_file_of_bare hbare
      rw [walk, hnew]
      rfl
    | link target =>
      rw [walk, hnew, Entry.eq_of_bare_eq hbare (by simp)]
      cases hfind : tree.find root with
      | error fault => simp [walk, hlink, hfind, bind, Except.bind] at hwalk
      | ok found =>
        obtain ⟨base, entry⟩ := found
        obtain ⟨last, hlast, hsame⟩ := hwritten.exists_find hfind
        have hkind : last.isDirectory = false := by
          rw [← Entry.isDirectory_bare, hsame, Entry.isDirectory_bare, Bool.eq_false_iff]
          intro hdirectory
          rw [Entry.eq_directory_of_isDirectory hdirectory] at hfind
          exact hother base hfind
        simp only [bind, Except.bind, pure, Except.pure, hlast, hkind, Bool.false_eq_true, if_false]

/-! ## Making directories -/

theorem Written.isDirectory {allowed : Location → Prop} (hwritten : Written allowed tree later)
    (hdirectory : tree.isDirectory path = true) : later.isDirectory path = true := by
  obtain ⟨location, hfind⟩ := exists_find_of_isDirectory hdirectory
  rw [FileTree.isDirectory, hwritten.find_directory hfind]
  rfl

namespace IsSound

theorem makeDirectory_eq_ok (hsound : tree.IsSound)
    (hmake : tree.makeDirectory path = .ok larger) :
    (∀ place, Furnished place tree larger) ∧ larger.isDirectory path = true := by
  unfold makeDirectory at hmake
  cases hresolve : tree.resolve false path with
  | error fault => simp [hresolve, bind, Except.bind] at hmake
  | ok target =>
    cases target with
    | found found entry => simp [hresolve, bind, Except.bind] at hmake
    | vacant location =>
      simp only [hresolve, bind, Except.bind, pure, Except.pure, Except.ok.injEq] at hmake
      rw [← hmake]
      refine ⟨fun place => .directory place (hsound.takes_of_vacant hresolve (by simp)), ?_⟩
      have hfound : (tree.set location .directory).resolve true path =
          .ok (.found location .directory) :=
        resolve_set_vacant (by simp) (resolve_true_of_vacant hresolve)
      rw [isDirectory, find_eq_ok_iff.mpr hfound]
      rfl

theorem ensureDirectory_eq_ok (hsound : tree.IsSound)
    (hmake : tree.ensureDirectory path = .ok larger) :
    (∀ place, Furnished place tree larger) ∧ larger.isDirectory path = true := by
  unfold ensureDirectory at hmake
  split at hmake
  · next made hmade =>
    rw [← Except.ok.inj hmake]
    exact hsound.makeDirectory_eq_ok hmade
  · split at hmake
    · next hdirectory =>
      rw [← Except.ok.inj hmake]
      exact ⟨fun place => .refl place tree, hdirectory⟩
    · contradiction

theorem makeDirectoriesAt_eq_ok (hsound : tree.IsSound) {components : List Path.Component}
    (hmake : tree.makeDirectoriesAt components = .ok larger) :
    (∀ place, Furnished place tree larger) ∧
      (components ≠ [] → larger.isDirectory (Path.ofComponents components.reverse) = true) := by
  induction components generalizing larger with
  | nil =>
    obtain rfl := Except.ok.inj hmake
    exact ⟨fun place => .refl place tree, by simp⟩
  | cons component above ih =>
    rcases makeDirectoriesAt_cons_eq_ok hmake with hmade | ⟨middle, habove, hmade⟩ | ⟨rfl, hthere⟩
    · obtain ⟨hfurnished, hdirectory⟩ := hsound.makeDirectory_eq_ok hmade
      exact ⟨hfurnished, fun _ => hdirectory⟩
    · obtain ⟨hfirst, -⟩ := ih habove
      have hmiddle := (hfirst []).written.isSound hsound
      obtain ⟨hlast, hdirectory⟩ := hmiddle.ensureDirectory_eq_ok hmade
      exact ⟨fun place => (hfirst place).trans (hlast place), fun _ => hdirectory⟩
    · exact ⟨fun place => .refl place larger, fun _ => hthere⟩

end IsSound

/-- No directory is made where one is. -/
theorem makeDirectory_of_isDirectory (hdirectory : tree.isDirectory path = true) :
    tree.makeDirectory path = .error .alreadyExists := by
  have hfound : ∃ location entry, tree.findLink path = .ok (location, entry) := by
    obtain ⟨location, hfind⟩ := exists_find_of_isDirectory hdirectory
    rcases findLink_of_find hfind with hfound | ⟨place, target, hfound⟩
    · exact ⟨location, .directory, hfound⟩
    · exact ⟨place, .link target, hfound⟩
  obtain ⟨location, entry, hfound⟩ := hfound
  rw [makeDirectory, resolve_of_findLink hfound]
  rfl

theorem makeDirectoriesAt_of_isDirectory {components : List Path.Component}
    (hthere : components ≠ [] → tree.isDirectory (Path.ofComponents components.reverse) = true) :
    tree.makeDirectoriesAt components = .ok tree := by
  cases components with
  | nil => rfl
  | cons component above =>
    have hdirectory := hthere (List.cons_ne_nil component above)
    rw [makeDirectoriesAt, makeDirectory_of_isDirectory hdirectory]
    simp only [hdirectory, if_true]

/-- The directories above a path are there in the end, and they need not be made again. -/
theorem IsSound.makeParents_eq_ok (hsound : tree.IsSound)
    (hmake : tree.makeParents path = .ok larger) :
    (∀ place, Furnished place tree larger) ∧
      ∀ later, Written (fun _ => True) larger later → later.makeParents path = .ok later := by
  unfold makeParents at hmake
  split at hmake
  · next hparent =>
    obtain rfl := Except.ok.inj hmake
    refine ⟨fun place => .refl place tree, fun later _ => ?_⟩
    rw [makeParents, hparent]
  · next directory hparent =>
    obtain ⟨hfurnished, hthere⟩ := hsound.makeDirectoriesAt_eq_ok hmake
    refine ⟨hfurnished, fun later hwritten => ?_⟩
    rw [makeParents, hparent]
    exact makeDirectoriesAt_of_isDirectory fun hne => hwritten.isDirectory (hthere hne)

/-! ## Writing the file -/

theorem set_eq_self {entry : Entry} (hbelow : location ≠ [])
    (hentry : tree.entryAt location = some entry) : tree.set location entry = tree := by
  rw [entryAt, if_neg (by simpa using hbelow)] at hentry
  simp only [set, Assoc.set_eq_self hentry]

theorem IsSound.writeBytes_eq_ok (hsound : tree.IsSound) {content : ByteArray}
    (hwrite : tree.writeBytes path content = .ok later) :
    ∃ place, later.find path = .ok (place, .file content) ∧
      tree.Takes place (.file content) ∧ later = tree.set place (.file content) := by
  obtain ⟨-, place, hplace, rfl⟩ := writeBytes_eq_ok_iff.mp hwrite
  rcases hplace with hvacant | ⟨old, hfind⟩
  · exact ⟨place, find_eq_ok_iff.mpr (resolve_set_vacant (by simp) hvacant),
      hsound.takes_of_vacant hvacant (by simp), rfl⟩
  · exact ⟨place, find_set_file hfind content, .file (hsound.entryAt_of_find hfind), rfl⟩

/-- Writing what a file holds changes nothing. -/
theorem writeBytes_of_writeBytes {content : ByteArray}
    (hwrite : tree.writeBytes path content = .ok later) :
    later.writeBytes path content = .ok later := by
  obtain ⟨hend, -⟩ := writeBytes_eq_ok_iff.mp hwrite
  obtain ⟨place, hfind⟩ := find_writeBytes hwrite
  have hentry := entryAt_of_find hfind
  have hbelow : place ≠ [] := by
    rintro rfl
    simp at hentry
  exact writeBytes_eq_ok_iff.mpr ⟨hend, place, .inr ⟨content, hfind⟩, set_eq_self hbelow hentry⟩

end FileTree

end SelectorMangling
