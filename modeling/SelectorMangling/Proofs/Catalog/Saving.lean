import SelectorMangling.Proofs.Catalog.Store
import SelectorMangling.Proofs.FileTree.Furnished
import SelectorMangling.Proofs.Result

/-!
# Saving and loading

Saving a catalog makes the directories above its file and writes the file, and saving it again changes
nothing.  In a tree without links where the catalog could be loaded, saving fails only on making the
directories, and then it leaves the tree as it was.
-/

namespace SelectorMangling.Catalog

open FileTree

variable {tree written : FileTree} {path : Path} {location : Location} {catalog : Catalog}

/-- Saving puts the text of the catalog in its place. -/
theorem written_of_save (hplain : tree.IsPlain) (hpath : path.Denotes location)
    (hsave : catalog.save tree path = (written, .ok ())) :
    Written (· <+: location) tree written ∧
      written.entryAt location = some (.file catalog.render.toUTF8) := by
  obtain ⟨larger, hparents, hwrite⟩ := exists_of_save hsave
  rcases List.eq_nil_or_concat location with rfl | ⟨front, name, rfl⟩
  · have hparent : path.parent? = none := by rw [Path.parent?, hpath]; rfl
    simp only [FileTree.makeParents, hparent, Except.ok.injEq] at hparents
    obtain ⟨-, htakes⟩ := (hparents ▸ hplain).writeText_eq_ok hpath hwrite
    exact absurd rfl htakes.ne_nil
  · rw [List.concat_eq_append] at hpath ⊢
    obtain ⟨habove, -⟩ := hplain.makeParents_eq_ok hpath hparents
    obtain ⟨rfl, htakes⟩ := (habove.isPlain hplain).writeText_eq_ok hpath hwrite
    have hmono : ∀ place, place <+: front → place <+: front ++ [name] :=
      fun place hplace => hplace.trans (List.prefix_append _ _)
    exact ⟨(habove.mono hmono).put (List.prefix_refl _) htakes, htakes.entryAt_set_self⟩

/-- Saving a catalog makes directories, and puts its text into the place that the path leads to. -/
theorem furnished_of_save (hsound : tree.IsSound)
    (hsave : catalog.save tree path = (written, .ok ())) :
    ∃ place, written.find path = .ok (place, .file catalog.render.toUTF8) ∧
      Furnished place tree written := by
  obtain ⟨larger, hparents, hwrite⟩ := exists_of_save hsave
  obtain ⟨hfurnished, -⟩ := hsound.makeParents_eq_ok hparents
  obtain ⟨place, hfind, htakes, rfl⟩ :=
    ((hfurnished []).written.isSound hsound).writeBytes_eq_ok hwrite
  exact ⟨place, hfind, (hfurnished place).trans (.file htakes)⟩

/-- Saving a catalog again changes nothing. -/
theorem save_of_save (hsound : tree.IsSound) (hsave : catalog.save tree path = (written, .ok ())) :
    catalog.save written path = (written, .ok ()) := by
  obtain ⟨larger, hparents, hwrite⟩ := exists_of_save hsave
  obtain ⟨hfurnished, hagain⟩ := hsound.makeParents_eq_ok hparents
  obtain ⟨place, -, htakes, hwritten⟩ :=
    ((hfurnished []).written.isSound hsound).writeBytes_eq_ok hwrite
  refine save_eq_ok (hagain written ?_) (writeBytes_of_writeBytes hwrite)
  rw [hwritten]
  exact Written.refl.put trivial htakes

/-- A catalog is loaded from an accepted text, unless nothing is there. -/
theorem parse_of_load (hload : load tree path = .ok catalog) :
    tree.exists? path = false ∧ catalog = empty ∨
      ∃ text, tree.readText path = .ok text ∧ parse text = .ok catalog := by
  unfold load at hload
  split at hload
  · split at hload
    · contradiction
    · next text hread =>
      exact .inr ⟨text, hread, mapError_eq_ok_iff.mp hload⟩
  · next hexists => exact .inl ⟨by simpa using hexists, (Except.ok.inj hload).symm⟩

/-- A name that is spelled like the member of the counter is never loaded. -/
theorem countKey_notMem_names_of_load (hload : load tree path = .ok catalog) :
    countKey ∉ catalog.names := by
  rcases parse_of_load hload with ⟨-, rfl⟩ | ⟨text, -, hparse⟩
  · exact notMem_names_empty countKey
  · exact countKey_notMem_names_of_parse hparse

variable (hend : location ≠ [] → path.EndsInMove)
include hend

theorem exists?_eq_true_iff (hplain : tree.IsPlain) (hpath : path.Denotes location) :
    tree.exists? path = true ↔ (tree.entryAt location).isSome := by
  rw [exists?]
  constructor
  · intro hexists
    cases hfind : tree.find path with
    | error fault => simp [hfind, Except.isOk, Except.toBool] at hexists
    | ok found =>
      obtain ⟨-, hentry, -⟩ := (hplain.find_eq_ok_iff hpath).mp hfind
      rw [hentry]
      rfl
  · intro hstands
    obtain ⟨entry, hentry⟩ := Option.isSome_iff_exists.mp hstands
    have hform : path.EndsInMove ∨ entry = .directory := by
      by_cases hroot : location = []
      · rw [hroot] at hentry
        exact .inr (Option.some.inj hentry).symm
      · exact .inl (hend hroot)
    rw [(hplain.find_eq_ok_iff hpath).mpr ⟨rfl, hentry, hform⟩]
    rfl

/-- A catalog was loaded from an accepted text, unless nothing was there. -/
theorem entryAt_of_load (hplain : tree.IsPlain) (hpath : path.Denotes location)
    (hload : load tree path = .ok catalog) :
    tree.entryAt location = none ∧ catalog = empty ∨
      ∃ text : String, tree.entryAt location = some (.file text.toUTF8) ∧
        parse text = .ok catalog := by
  rcases parse_of_load hload with ⟨habsent, rfl⟩ | ⟨text, hread, hparse⟩
  · rw [← Bool.not_eq_true, exists?_eq_true_iff hend hplain hpath,
      Option.not_isSome_iff_eq_none] at habsent
    exact .inl ⟨habsent, rfl⟩
  · exact .inr ⟨text, ((hplain.readText_eq_ok_iff hpath).mp hread).2, hparse⟩

/-- Where a catalog was loaded, a failure to save one leaves the tree. -/
theorem save_eq_error (hplain : tree.IsPlain) (hpath : path.Denotes location) {loaded : Catalog}
    (hload : load tree path = .ok loaded) {fault : StoreFault}
    (hsave : catalog.save tree path = (written, .error fault)) : written = tree := by
  have hplace : tree.entryAt location ≠ some .directory := by
    rcases entryAt_of_load hend hplain hpath hload with ⟨hnone, -⟩ | ⟨text, hfile, -⟩
    · simp [hnone]
    · simp [hfile]
  unfold save at hsave
  split at hsave
  · exact (Prod.mk.inj hsave).1.symm
  · next larger hparents =>
    split at hsave
    · next cause hwrite =>
      -- The directories are there and no directory is in the place of the file.
      rcases List.eq_nil_or_concat location with rfl | ⟨front, name, rfl⟩
      · exact absurd rfl hplace
      · rw [List.concat_eq_append] at hpath hplace hend
        obtain ⟨habove, hdirectory⟩ := hplain.makeParents_eq_ok hpath hparents
        have hspared : ¬front ++ [name] <+: front := by
          intro hprefix
          exact absurd hprefix.length_le (by simp)
        rw [← habove.entryAt_eq hspared] at hplace
        obtain ⟨last, hlast⟩ := (habove.isPlain hplain).exists_writeText_eq_ok hpath
          (hend (by simp)) (by rwa [List.dropLast_concat]) hplace catalog.render
        rw [hwrite] at hlast
        contradiction
    · simp at hsave

end SelectorMangling.Catalog
