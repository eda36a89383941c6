import SelectorMangling.Proofs.Path.Spelling
import SelectorMangling.Proofs.Site.Workspace
import SelectorMangling.Settings.Load
import SelectorMangling.Site.Mangle

/-!
# Where accepted settings point

The paths of settings that were accepted lead straight down from the root, and the cache does not lie
below the output.  The directory of a locale lies directly in the output.
-/

namespace SelectorMangling

theorem FileTree.isAbsolute_pathOf (location : Location) : (pathOf location).isAbsolute = true := by
  suffices hfold : ∀ components : List Path.Component, ∀ path : Path, path.isAbsolute = true →
      (components.foldl (fun path component => path.join ⟨component.text⟩) path).isAbsolute =
        true by
    have hroot : Path.isAbsolute (Path.join ⟨""⟩ ⟨"/"⟩) = true := by decide
    exact hfold (location.map Path.Component.name) _ hroot
  intro components
  induction components with
  | nil => exact fun _ hpath => hpath
  | cons component rest ih => exact fun _ hpath => ih _ (Path.isAbsolute_join hpath _)

namespace Settings

variable {settings : Settings}

/-- Settings whose paths lead straight down, with the cache outside of the output. -/
structure IsLocated (settings : Settings) : Prop where
  denotes_distDir : settings.distDir.Denotes settings.distDir.location
  denotes_cachePath : settings.cachePath.Denotes settings.cachePath.location
  cachePath_ends : settings.cachePath.location ≠ [] → settings.cachePath.EndsInMove
  cache_outside : ¬settings.distDir.location <+: settings.cachePath.location
  isValidLocale_reference : isValidLocale settings.referenceLocale = true

theorem distDir_locate (settings : Settings) (directory : Path) :
    (settings.locate directory).distDir = (directory.join settings.distDir).normalize := by
  rw [locate]

theorem cachePath_locate (settings : Settings) (directory : Path) :
    (settings.locate directory).cachePath = (directory.join settings.cachePath).normalize := by
  rw [locate]

theorem cache_outside_of_check {dist cache : Location} (hdist : settings.distDir.Denotes dist)
    (hcache : settings.cachePath.Denotes cache) (hcheck : settings.check = .ok ()) :
    ¬dist <+: cache ∧ isValidLocale settings.referenceLocale = true := by
  unfold check at hcheck
  split at hcheck
  · contradiction
  · next houtside =>
    split at hcheck
    · contradiction
    · next hlocale =>
      refine ⟨?_, by simpa using hlocale⟩
      intro hprefix
      apply houtside
      rw [Path.startsWith, List.isPrefixOf_iff_prefix, hdist, hcache, List.prefix_cons_inj]
      exact hprefix.map Path.Component.name

theorem check_of_bind {located : Settings}
    (hbind : (located.check.mapError LoadFault.invalid >>= fun _ => pure located) =
      .ok settings) : settings = located ∧ settings.check = .ok () := by
  obtain ⟨_, hcheck, hlast⟩ := exists_of_bind_eq_ok hbind
  rw [← Except.ok.inj hlast]
  exact ⟨rfl, mapError_eq_ok_iff.mp hcheck⟩

theorem exists_locate_of_ofOptions {tree : FileTree} {options : Options}
    (hsettings : ofOptions tree options = .ok settings) :
    ∃ written : Settings, settings = written.locate tree.currentPath ∧
      settings.check = .ok () := by
  unfold ofOptions at hsettings
  dsimp only at hsettings
  split at hsettings
  · obtain ⟨written, -, hlocated⟩ := exists_of_bind_eq_ok hsettings
    exact ⟨_, check_of_bind hlocated⟩
  · obtain ⟨written, -, hlocated⟩ := exists_of_bind_eq_ok hsettings
    exact ⟨_, check_of_bind hlocated⟩

/-- A settings file that can be read and holds acceptable settings is gone by. -/
theorem ofOptions_of_readText {tree : FileTree} {options : Options} {file : Path} {text : String}
    {written : Settings} (hfile : options.config = some file)
    (hread : tree.readText file = .ok text) (hparse : parse text = .ok written)
    (hlocate : (written.override options).locate tree.currentPath = settings)
    (hcheck : settings.check = .ok ()) : ofOptions tree options = .ok settings := by
  have hwritten : ofFile tree file = .ok written := by
    rw [ofFile, hread]
    dsimp only
    rw [hparse, Except.mapError]
  have hsettings : ((written.override options).locate tree.currentPath).check = .ok () := by
    rw [hlocate, hcheck]
  simp only [ofOptions, fileOf?, hfile, hwritten]
  dsimp only [bind, Except.bind]
  rw [hsettings, hlocate]
  rfl

/-- Settings that were accepted are located. -/
theorem isLocated_of_ofOptions {tree : FileTree} {options : Options}
    (hsettings : ofOptions tree options = .ok settings) : settings.IsLocated := by
  obtain ⟨written, rfl, hcheck⟩ := exists_locate_of_ofOptions hsettings
  have hcurrent : tree.currentPath.isAbsolute = true := FileTree.isAbsolute_pathOf tree.current
  obtain ⟨dist, -, hdist, -⟩ :=
    Path.exists_denotes_normalize (Path.isAbsolute_join hcurrent written.distDir)
  obtain ⟨cache, hnormal, hcache, hnames⟩ :=
    Path.exists_denotes_normalize (Path.isAbsolute_join hcurrent written.cachePath)
  have hends : cache ≠ [] → (tree.currentPath.join written.cachePath).normalize.EndsInMove := by
    intro hbelow
    rw [hnormal]
    exact Path.endsInMove_ofComponents hnames hbelow
  rw [← distDir_locate] at hdist
  rw [← cachePath_locate] at hcache hends
  have ⟨houtside, hlocale⟩ := cache_outside_of_check hdist hcache hcheck
  obtain rfl := hdist.location_eq
  obtain rfl := hcache.location_eq
  exact ⟨hdist, hcache, hends, houtside, hlocale⟩

namespace IsLocated

variable {locale : String}

theorem denotes_localeDirectory (hlocated : settings.IsLocated) {name : String}
    (hname : IsEntryName name) (hspells : Spells name locale) :
    (Site.localeDirectory settings locale).Denotes (settings.distDir.location ++ [name]) :=
  hlocated.denotes_distDir.join (hspells.isAbsolute_eq hname) (hspells.inner_eq hname)

/-- A valid locale names a directory directly in the output. -/
theorem exists_denotes_localeDirectory (hlocated : settings.IsLocated)
    (hlocale : isValidLocale locale = true) :
    ∃ name, IsEntryName name ∧
      (Site.localeDirectory settings locale).Denotes (settings.distDir.location ++ [name]) := by
  obtain ⟨name, hname, hspells⟩ := isValidLocale_iff.mp hlocale
  exact ⟨name, hname, hlocated.denotes_localeDirectory hname hspells⟩

end IsLocated

end Settings

end SelectorMangling
