import SelectorMangling.Catalog.Elevation
import SelectorMangling.Site.Scan

/-!
# Building the catalog

A build scans a locale, numbers the elevation family, saves the catalog and checks it.  Names that
are cataloged already keep their codes.
-/

namespace SelectorMangling.Site

def elevate (stem : String) : Work Unit := do
  let catalog := (← get).catalog
  match catalog.deriveElevation? stem with
  | none => tell (.elevationSkipped stem)
  | some derived => do
    modify fun workspace => { workspace with catalog := derived }
    tellAll ((derived.family stem).map fun entry => .elevated entry.1 entry.2)

/-- Extends the catalog in memory by the selectors of a locale and saves it. -/
def build (settings : Settings) (rules : Rules) (root : Path) : Work ScanStats := do
  tell (.building root)
  let stats ← scan settings rules root
  elevate settings.elevationPrefix
  saveCatalog settings.cachePath
  let catalog := (← get).catalog
  tell (.saved catalog.size stats.addedSelectors settings.cachePath)
  tell (.shown catalog)
  match catalog.validate with
  | .ok () => return stats
  | .error cause => throw (.inconsistent cause)

end SelectorMangling.Site
