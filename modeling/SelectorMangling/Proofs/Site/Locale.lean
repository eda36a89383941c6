import SelectorMangling.Proofs.Catalog.Saving
import SelectorMangling.Proofs.Settings.Located
import SelectorMangling.Proofs.Site.Stages

/-!
# Runs in a tree without links

With accepted settings the directory of a locale lies in the output, its source files lie below it,
and saving the cache touches nothing in the output.
-/

namespace SelectorMangling.Site

open FileTree

variable {settings : Settings} {tree later : FileTree} {location : Location}

/-- The directory of a locale that a run is prepared for. -/
theorem Prepared.exists_isRoot {locale : String} {rules : Rules} {loaded : Catalog}
    (hprepared : Prepared settings locale tree rules loaded) (hlocated : settings.IsLocated)
    (hplain : tree.IsPlain) (hlocale : isValidLocale locale = true) :
    ∃ name, IsEntryName name ∧
      IsRoot tree (localeDirectory settings locale) (settings.distDir.location ++ [name]) := by
  obtain ⟨name, hname, hdenotes⟩ := hlocated.exists_denotes_localeDirectory hlocale
  exact ⟨name, hname, hplain, hdenotes,
    (hplain.isDirectory_iff hdenotes).mp hprepared.directory⟩

/-- What lies in the output does not lead to the cache. -/
theorem not_prefix_cache (hlocated : settings.IsLocated)
    (hbelow : settings.distDir.location <+: location) :
    ¬location <+: settings.cachePath.location :=
  fun hprefix => hlocated.cache_outside (hbelow.trans hprefix)

/-- Saving the cache leaves the output. -/
theorem entryAt_of_written (hlocated : settings.IsLocated)
    (hwritten : Written (· <+: settings.cachePath.location) tree later)
    (hbelow : settings.distDir.location <+: location) :
    later.entryAt location = tree.entryAt location :=
  hwritten.entryAt_eq (not_prefix_cache hlocated hbelow)

/-- The source files of a locale lie below it. -/
theorem IsRoot.base_prefix {root : Path} {base : Location} (hroot : IsRoot tree root base)
    (hsource : IsSource tree settings root location) : base <+: location := by
  obtain ⟨names, name, content, rfl, -⟩ := hroot.isSource_iff.mp hsource
  rw [List.append_assoc]
  exact List.prefix_append _ _

end SelectorMangling.Site
