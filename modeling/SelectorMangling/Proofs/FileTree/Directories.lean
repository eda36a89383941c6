import SelectorMangling.Proofs.FileTree.Written

/-!
# Making directories and files

In a tree without links the directories above a path are made at the names that lead to it, and only
where they are missing.  A file is then written at the last name.
-/

namespace SelectorMangling

theorem Path.parent?_of_denotes {path : Path} {front : Location} {last : String}
    (hpath : path.Denotes (front ++ [last])) :
    path.parent? = some (ofComponents (.root :: front.map .name)) := by
  have hreverse : path.components.reverse =
      .name last :: (Component.root :: front.map .name).reverse := by
    rw [hpath]
    simp
  rw [parent?, hreverse]
  simp

namespace FileTree

variable {tree larger : FileTree} {path : Path} {location : Location}

/-- The ways in which the directories of a path come to be there. -/
theorem makeDirectoriesAt_cons_eq_ok {component : Path.Component}
    {above : List Path.Component}
    (hmake : tree.makeDirectoriesAt (component :: above) = .ok larger) :
    tree.makeDirectory (Path.ofComponents (component :: above).reverse) = .ok larger ∨
      (∃ middle, tree.makeDirectoriesAt above = .ok middle ∧
        middle.ensureDirectory (Path.ofComponents (component :: above).reverse) = .ok larger) ∨
      larger = tree ∧
        tree.isDirectory (Path.ofComponents (component :: above).reverse) = true := by
  rw [makeDirectoriesAt] at hmake
  split at hmake
  · next made hmade => exact .inl (hmade.trans hmake)
  · cases habove : tree.makeDirectoriesAt above with
    | error fault => simp [habove, bind, Except.bind] at hmake
    | ok middle =>
      rw [habove] at hmake
      exact .inr (.inl ⟨middle, rfl, hmake⟩)
  · split at hmake
    · next hdirectory => exact .inr (.inr ⟨(Except.ok.inj hmake).symm, hdirectory⟩)
    · contradiction

namespace IsPlain

/-- Something can be put where a path leads to nothing. -/
theorem takes_of_resolve (hplain : tree.IsPlain) (hpath : path.Denotes location)
    {followLast : Bool} {place : Location}
    (hresolve : tree.resolve followLast path = .ok (.vacant place)) :
    place = location ∧
      ∀ entry : Entry, (∀ target, entry ≠ .link target) → tree.Takes location entry := by
  obtain ⟨rfl, hfree, habove, -⟩ := (hplain.resolve_eq_vacant_iff hpath).mp hresolve
  rcases List.eq_nil_or_concat place with rfl | ⟨front, last, rfl⟩
  · contradiction
  · rw [List.concat_eq_append] at hpath hfree habove ⊢
    rw [List.dropLast_concat] at habove
    exact ⟨rfl, fun _ hentry => .free habove (hpath.isEntryName (by simp)) hfree hentry⟩

theorem makeDirectory_eq_ok (hplain : tree.IsPlain) (hpath : path.Denotes location)
    (hmake : tree.makeDirectory path = .ok larger) :
    Written (· <+: location) tree larger ∧ larger.entryAt location = some .directory := by
  unfold makeDirectory at hmake
  cases hresolve : tree.resolve false path with
  | error fault => simp [hresolve, bind, Except.bind] at hmake
  | ok target =>
    cases target with
    | found place entry => simp [hresolve, bind, Except.bind] at hmake
    | vacant place =>
      obtain ⟨rfl, hfree⟩ := hplain.takes_of_resolve hpath hresolve
      have htakes : tree.Takes place .directory := hfree .directory (by simp)
      simp only [hresolve, bind, Except.bind, pure, Except.pure, Except.ok.injEq] at hmake
      rw [← hmake]
      exact ⟨Written.refl.put (List.prefix_refl _) htakes, htakes.entryAt_set_self⟩

theorem ensureDirectory_eq_ok (hplain : tree.IsPlain) (hpath : path.Denotes location)
    (hmake : tree.ensureDirectory path = .ok larger) :
    Written (· <+: location) tree larger ∧ larger.entryAt location = some .directory := by
  unfold ensureDirectory at hmake
  split at hmake
  · next made hmade =>
    rw [← Except.ok.inj hmake]
    exact hplain.makeDirectory_eq_ok hpath hmade
  · split at hmake
    · next hdirectory =>
      rw [← Except.ok.inj hmake]
      exact ⟨.refl, (hplain.isDirectory_iff hpath).mp hdirectory⟩
    · contradiction

/-- The directory is there in the end, and only directories that lead to it were made. -/
theorem makeDirectoriesAt_eq_ok (hplain : tree.IsPlain) {names : List String}
    (hnames : ∀ name ∈ names, IsEntryName name)
    (hmake : tree.makeDirectoriesAt (Path.Component.root :: names.map .name).reverse =
      .ok larger) :
    Written (· <+: names) tree larger ∧ larger.entryAt names = some .directory := by
  have hpath := Path.denotes_ofComponents hnames
  induction names using List.reverseRecOn generalizing larger with
  | nil =>
    rcases makeDirectoriesAt_cons_eq_ok hmake with hmade | ⟨middle, habove, hmade⟩ | ⟨rfl, hthere⟩
    · exact hplain.makeDirectory_eq_ok hpath hmade
    · obtain rfl := Except.ok.inj habove
      exact hplain.ensureDirectory_eq_ok hpath hmade
    · exact ⟨.refl, entryAt_nil _⟩
  | append_singleton front last ih =>
    have hreverse : (Path.Component.root :: (front ++ [last]).map .name).reverse =
        .name last :: (Path.Component.root :: front.map .name).reverse := by
      simp
    rw [hreverse] at hmake
    have hcases := makeDirectoriesAt_cons_eq_ok hmake
    rw [← hreverse, List.reverse_reverse] at hcases
    rcases hcases with hmade | ⟨middle, habove, hmade⟩ | ⟨rfl, hthere⟩
    · exact hplain.makeDirectory_eq_ok hpath hmade
    · have hfront : ∀ name ∈ front, IsEntryName name :=
        fun name hname => hnames name (List.mem_append_left _ hname)
      obtain ⟨hwritten, -⟩ := ih hfront habove (Path.denotes_ofComponents hfront)
      obtain ⟨hlast, hdirectory⟩ :=
        (hwritten.isPlain hplain).ensureDirectory_eq_ok hpath hmade
      have hmono : ∀ place, place <+: front → place <+: front ++ [last] :=
        fun place hplace => hplace.trans (List.prefix_append _ _)
      exact ⟨(hwritten.mono hmono).trans hlast, hdirectory⟩
    · exact ⟨.refl, (hplain.isDirectory_iff hpath).mp hthere⟩

/-- The directories above a path are there in the end. -/
theorem makeParents_eq_ok (hplain : tree.IsPlain) {front : Location} {last : String}
    (hpath : path.Denotes (front ++ [last])) (hmake : tree.makeParents path = .ok larger) :
    Written (· <+: front) tree larger ∧ larger.entryAt front = some .directory := by
  have hfront : ∀ name ∈ front, IsEntryName name :=
    fun name hname => hpath.isEntryName (List.mem_append_left _ hname)
  simp only [makeParents, Path.parent?_of_denotes hpath, makeDirectories] at hmake
  rw [Path.denotes_ofComponents hfront] at hmake
  exact hplain.makeDirectoriesAt_eq_ok hfront hmake

/-- Writing puts a file at the names of the path. -/
theorem writeText_eq_ok (hplain : tree.IsPlain) (hpath : path.Denotes location) {text : String}
    (hwrite : tree.writeText path text = .ok larger) :
    larger = tree.set location (.file text.toUTF8) ∧
      tree.Takes location (.file text.toUTF8) := by
  obtain ⟨-, place, hplace, rfl⟩ := writeBytes_eq_ok_iff.mp hwrite
  rcases hplace with hvacant | ⟨old, hfind⟩
  · obtain ⟨rfl, hfree⟩ := hplain.takes_of_resolve hpath hvacant
    exact ⟨rfl, hfree _ (by simp)⟩
  · obtain ⟨rfl, hfile, -⟩ := (hplain.find_eq_ok_iff hpath).mp hfind
    exact ⟨rfl, .file hfile⟩

/-- A file can be written where it lies in a directory and no directory is in its place. -/
theorem exists_writeText_eq_ok (hplain : tree.IsPlain) (hpath : path.Denotes location)
    (hend : path.EndsInMove) (habove : tree.entryAt location.dropLast = some .directory)
    (hplace : tree.entryAt location ≠ some .directory) (text : String) :
    ∃ written, tree.writeText path text = .ok written := by
  refine ⟨_, writeBytes_eq_ok_iff.mpr ⟨hend.getLast?_ne, location, ?_, rfl⟩⟩
  cases hentry : tree.entryAt location with
  | none => exact .inl ((hplain.resolve_eq_vacant_iff hpath).mpr ⟨rfl, hentry, habove, hend⟩)
  | some entry =>
    cases entry with
    | directory => exact absurd hentry hplace
    | file old => exact .inr ⟨old, (hplain.find_eq_ok_iff hpath).mpr ⟨rfl, hentry, .inl hend⟩⟩
    | link target => exact absurd hentry (hplain.link_free _ _)

end IsPlain

end FileTree

end SelectorMangling
