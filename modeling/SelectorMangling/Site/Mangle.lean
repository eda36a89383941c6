import SelectorMangling.Site.Build
import SelectorMangling.Site.Rewrite

/-!
# Mangling a locale

A run for the reference locale first extends the catalog by the selectors of its output.  Every
locale is then rewritten with the catalog, so that all of them use the same codes.
-/

namespace SelectorMangling.Site

/-- What a run came to. -/
structure Summary where
  /-- Whether the catalog was built from this locale. -/
  reference : Bool
  scannedFiles : Nat
  addedSelectors : Nat
  catalogSize : Nat
  rewrittenFiles : Nat
deriving DecidableEq, Repr

def localeDirectory (settings : Settings) (locale : String) : Path :=
  settings.distDir.join ⟨locale⟩

def buildReference (settings : Settings) (rules : Rules) (locale : String) : Work ScanStats :=
  tryCatch (build settings rules (localeDirectory settings locale)) fun fault => do
    match fault with
    | .inconsistent _ => tell (.duplicates locale)
    | _ => pure ()
    throw fault

/-- Mangles the selectors of a locale. -/
def mangle (settings : Settings) (locale : String) : Work Summary := do
  let root := localeDirectory settings locale
  if !(← get).tree.isDirectory root then
    throw (.missingLocale root)
  match Rules.ofSettings settings with
  | .error fault => throw (.pattern fault)
  | .ok rules => do
    loadCatalog settings.cachePath
    let reference := locale == settings.referenceLocale
    let stats ←
      if reference then buildReference settings rules locale
      else do
        tell (.using settings.cachePath (← get).catalog.size)
        pure {}
    let rewrittenFiles ← rewrite settings root
    return {
      reference
      scannedFiles := stats.scannedFiles
      addedSelectors := stats.addedSelectors
      catalogSize := (← get).catalog.size
      rewrittenFiles }

end SelectorMangling.Site
