import Mathlib.Data.List.Induction
import SelectorMangling.Proofs.FileTree.Plain

/-!
# Trees that were written to

Everything that a run does to a tree is to put something at a free place of a directory or to replace
one file by another.  What is there stays there, and a tree without links stays one.
-/

namespace SelectorMangling.FileTree

/-- What can be put where: a file in the place of a file, and a file or a directory at a free place
of a directory. -/
inductive Takes (tree : FileTree) : Location → Entry → Prop
  | free {directory : Location} {name : String} {entry : Entry}
      (hdirectory : tree.entryAt directory = some .directory) (hname : IsEntryName name)
      (hfree : tree.entryAt (directory ++ [name]) = none)
      (hentry : ∀ target, entry ≠ .link target) : Takes tree (directory ++ [name]) entry
  | file {location : Location} {old new : ByteArray}
      (hold : tree.entryAt location = some (.file old)) : Takes tree location (.file new)

/-- A later tree comes from an earlier one by putting something at allowed locations. -/
inductive Written (allowed : Location → Prop) (tree : FileTree) : FileTree → Prop
  | refl : Written allowed tree tree
  | put {later : FileTree} {location : Location} {entry : Entry}
      (hwritten : Written allowed tree later) (hallowed : allowed location)
      (htakes : later.Takes location entry) : Written allowed tree (later.set location entry)

variable {tree later : FileTree} {location : Location} {entry : Entry}

namespace Takes

theorem ne_directory (htakes : tree.Takes location entry) :
    tree.entryAt location ≠ some .directory := by
  cases htakes with
  | free _ _ hfree _ => simp [hfree]
  | file hold => simp [hold]

theorem ne_nil (htakes : tree.Takes location entry) : location ≠ [] := by
  rintro rfl
  exact htakes.ne_directory rfl

theorem entryAt_set_self (htakes : tree.Takes location entry) :
    (tree.set location entry).entryAt location = some entry :=
  tree.entryAt_set_self entry htakes.ne_nil

theorem entryAt_set_of_directory (htakes : tree.Takes location entry) {other : Location}
    (hdirectory : tree.entryAt other = some .directory) :
    (tree.set location entry).entryAt other = some .directory := by
  rw [tree.entryAt_set_of_ne entry, hdirectory]
  rintro rfl
  exact htakes.ne_directory hdirectory

theorem link_free_set (htakes : tree.Takes location entry)
    (hfree : ∀ other target, tree.entryAt other ≠ some (.link target)) (other : Location)
    (target : Path) : (tree.set location entry).entryAt other ≠ some (.link target) := by
  by_cases hother : other = location
  · rw [hother, htakes.entryAt_set_self]
    cases htakes with
    | free _ _ _ hentry => simpa using hentry target
    | file _ => simp
  · rw [tree.entryAt_set_of_ne entry hother]
    exact hfree other target

theorem hasEntryNames_set (htakes : tree.Takes location entry) (hnamed : tree.HasEntryNames) :
    (tree.set location entry).HasEntryNames := by
  intro other found hfound
  by_cases hother : other = location
  · rw [hother]
    cases htakes with
    | free hdirectory hname _ _ =>
      intro name hmem
      rcases List.mem_append.mp hmem with habove | hlast
      · exact hnamed _ _ hdirectory name habove
      · rwa [List.mem_singleton.mp hlast]
    | file hold => exact hnamed _ _ hold
  · rw [tree.entryAt_set_of_ne entry hother] at hfound
    exact hnamed other found hfound

theorem liesInDirectories_set (htakes : tree.Takes location entry)
    (hlies : tree.LiesInDirectories) : (tree.set location entry).LiesInDirectories := by
  intro above name hstands
  apply htakes.entryAt_set_of_directory
  by_cases hplace : above ++ [name] = location
  · cases htakes with
    | free hdirectory _ _ _ =>
      obtain ⟨rfl, -⟩ := List.append_inj' hplace rfl
      exact hdirectory
    | file hold =>
      apply hlies above name
      rw [hplace, hold]
      rfl
  · rw [tree.entryAt_set_of_ne entry hplace] at hstands
    exact hlies above name hstands

theorem isPlain_set (htakes : tree.Takes location entry) (hplain : tree.IsPlain) :
    (tree.set location entry).IsPlain where
  link_free := htakes.link_free_set hplain.link_free
  named := htakes.hasEntryNames_set hplain.named
  parent := htakes.liesInDirectories_set hplain.parent

end Takes

/-- Steps lead to the same place where everything on their way stands as it did. -/
theorem Leads.of_entryAt_mono
    (hmono : ∀ location entry, tree.entryAt location = some entry →
      later.entryAt location = some entry)
    {followLast : Bool} {links : Nat} {directory : Location} {steps : List String}
    {target : Target} (hleads : tree.Leads followLast links directory steps target)
    (hfound : ∀ place, target ≠ .vacant place) :
    later.Leads followLast links directory steps target := by
  induction hleads with
  | arrived => exact .arrived
  | stay hstep _ ih => exact .stay hstep (ih hfound)
  | up _ ih => exact .up (ih hfound)
  | missing => exact absurd rfl (hfound _)
  | enter hstep hentry _ ih => exact .enter hstep (hmono _ _ hentry) (ih hfound)
  | file hstep hentry => exact .file hstep (hmono _ _ hentry)
  | link hstep hlast hentry => exact .link hstep hlast (hmono _ _ hentry)
  | through hstep hgoes hentry _ ih => exact .through hstep hgoes (hmono _ _ hentry) (ih hfound)

theorem resolve_of_entryAt_mono (hcurrent : later.current = tree.current)
    (hmono : ∀ location entry, tree.entryAt location = some entry →
      later.entryAt location = some entry)
    {followLast : Bool} {path : Path}
    (hresolve : tree.resolve followLast path = .ok (.found location entry)) :
    later.resolve followLast path = .ok (.found location entry) := by
  obtain ⟨hsome, hleads⟩ := resolve_eq_ok_iff_leads.mp hresolve
  have hstart : later.startOf path = tree.startOf path := by rw [startOf, startOf, hcurrent]
  refine resolve_eq_ok_iff_leads.mpr ⟨hsome, ?_⟩
  rw [hstart]
  exact hleads.of_entryAt_mono hmono (by simp)

namespace Written

variable {allowed : Location → Prop}

theorem trans {middle : FileTree} (hfirst : Written allowed tree middle)
    (hlast : Written allowed middle later) : Written allowed tree later := by
  induction hlast with
  | refl => exact hfirst
  | put _ hallowed htakes ih => exact ih.put hallowed htakes

theorem mono {other : Location → Prop} (hwritten : Written allowed tree later)
    (hother : ∀ location, allowed location → other location) : Written other tree later := by
  induction hwritten with
  | refl => exact .refl
  | put _ hallowed htakes ih => exact ih.put (hother _ hallowed) htakes

theorem isPlain (hwritten : Written allowed tree later) (hplain : tree.IsPlain) :
    later.IsPlain := by
  induction hwritten with
  | refl => exact hplain
  | put _ _ htakes ih => exact htakes.isPlain_set ih

theorem hasEntryNames (hwritten : Written allowed tree later) (hnamed : tree.HasEntryNames) :
    later.HasEntryNames := by
  induction hwritten with
  | refl => exact hnamed
  | put _ _ htakes ih => exact htakes.hasEntryNames_set ih

theorem liesInDirectories (hwritten : Written allowed tree later)
    (hlies : tree.LiesInDirectories) : later.LiesInDirectories := by
  induction hwritten with
  | refl => exact hlies
  | put _ _ htakes ih => exact htakes.liesInDirectories_set ih

/-- Nothing changes where nothing may be put. -/
theorem entryAt_eq (hwritten : Written allowed tree later) (hspared : ¬allowed location) :
    later.entryAt location = tree.entryAt location := by
  induction hwritten with
  | refl => rfl
  | @put later place entry _ hallowed _ ih =>
    rw [later.entryAt_set_of_ne entry, ih]
    rintro rfl
    exact hspared hallowed

theorem entryAt_directory (hwritten : Written allowed tree later)
    (hdirectory : tree.entryAt location = some .directory) :
    later.entryAt location = some .directory := by
  induction hwritten with
  | refl => exact hdirectory
  | put _ _ htakes ih => exact htakes.entryAt_set_of_directory ih

/-- What stands in a tree stands there later, except that files may hold something else. -/
theorem entryAt_bare (hwritten : Written allowed tree later)
    (hentry : tree.bare.entryAt location = some entry) :
    later.bare.entryAt location = some entry := by
  induction hwritten with
  | refl => exact hentry
  | @put later place added _ _ htakes ih =>
    have hbelow := htakes.ne_nil
    rw [bare_set]
    by_cases hplace : location = place
    · subst hplace
      cases htakes with
      | free _ _ hfree _ =>
        rw [FileTree.entryAt_bare, hfree] at ih
        contradiction
      | file hold =>
        rw [FileTree.entryAt_bare, hold] at ih
        rw [later.bare.entryAt_set_self _ hbelow, ← ih]
        rfl
    · rw [later.bare.entryAt_set_of_ne _ hplace, ih]

theorem exists_file (hwritten : Written allowed tree later) {content : ByteArray}
    (hfile : tree.entryAt location = some (.file content)) :
    ∃ new, later.entryAt location = some (.file new) := by
  have hbare : tree.bare.entryAt location = some (Entry.bare (.file content)) := by
    rw [FileTree.entryAt_bare, hfile]
    rfl
  exact exists_file_of_entryAt_bare (hwritten.entryAt_bare hbare)

theorem current_eq (hwritten : Written allowed tree later) : later.current = tree.current := by
  induction hwritten with
  | refl => rfl
  | put _ _ _ ih => exact ih

/-- A path that leads somewhere leads there later, except that a file may hold something else. -/
theorem exists_resolve (hwritten : Written allowed tree later) {followLast : Bool} {path : Path}
    (hresolve : tree.resolve followLast path = .ok (.found location entry)) :
    ∃ new, later.resolve followLast path = .ok (.found location new) ∧ new.bare = entry.bare := by
  have hbare : later.bare.resolve followLast path = .ok (.found location entry.bare) := by
    have hcurrent : later.bare.current = tree.bare.current := hwritten.current_eq
    apply resolve_of_entryAt_mono hcurrent (fun _ _ => hwritten.entryAt_bare)
    rw [resolve_bare, hresolve]
    rfl
  rw [resolve_bare] at hbare
  cases hlater : later.resolve followLast path with
  | error fault => simp [hlater, Except.map] at hbare
  | ok target =>
    cases target with
    | found place new =>
      simp only [hlater, Except.map, Target.bare, Except.ok.injEq, Target.found.injEq] at hbare
      exact ⟨new, by rw [hbare.1], hbare.2⟩
    | vacant place => simp [hlater, Except.map, Target.bare] at hbare

theorem exists_find (hwritten : Written allowed tree later) {path : Path}
    (hfind : tree.find path = .ok (location, entry)) :
    ∃ new, later.find path = .ok (location, new) ∧ new.bare = entry.bare := by
  obtain ⟨new, hnew, hbare⟩ := hwritten.exists_resolve (find_eq_ok_iff.mp hfind)
  exact ⟨new, find_eq_ok_iff.mpr hnew, hbare⟩

theorem find_directory (hwritten : Written allowed tree later) {path : Path}
    (hfind : tree.find path = .ok (location, .directory)) :
    later.find path = .ok (location, .directory) := by
  obtain ⟨new, hnew, hbare⟩ := hwritten.exists_find hfind
  rw [hnew, Entry.eq_of_bare_eq hbare (by simp)]

/-- A path that leads to a file goes on leading to one. -/
theorem isFile_of_isFile (hwritten : Written allowed tree later) {path : Path}
    (hfile : tree.isFile path = true) : later.isFile path = true := by
  unfold isFile at hfile
  split at hfile
  · next place entry hfind =>
    obtain ⟨new, hnew, hbare⟩ := hwritten.exists_find hfind
    rw [isFile, hnew]
    dsimp only
    rwa [← Entry.isFile_bare, hbare, Entry.isFile_bare]
  · contradiction

/-- A path that led somewhere led to a file if it leads to one later. -/
theorem isFile_of_exists (hwritten : Written allowed tree later) {path : Path}
    (hexists : tree.exists? path = true) (hfile : later.isFile path = true) :
    tree.isFile path = true := by
  cases hfind : tree.find path with
  | error fault => simp [exists?, hfind, Except.isOk, Except.toBool] at hexists
  | ok found =>
    obtain ⟨place, entry⟩ := found
    obtain ⟨new, hnew, hbare⟩ := hwritten.exists_find hfind
    rw [isFile, hnew] at hfile
    rw [isFile, hfind]
    dsimp only at hfile ⊢
    rwa [← Entry.isFile_bare, ← hbare, Entry.isFile_bare]

end Written

end SelectorMangling.FileTree
