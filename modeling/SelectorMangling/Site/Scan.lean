import SelectorMangling.Catalog.Allocation
import SelectorMangling.Rules
import SelectorMangling.Site.FeatureFolder
import SelectorMangling.Site.SourceFile
import SelectorMangling.Site.Workspace

/-!
# Scanning a locale

A scan adds the candidates of every source file of a locale to the catalog in memory, folder by
folder and file by file.
-/

namespace SelectorMangling.Site

/-- How much was scanned, and how much was new. -/
structure ScanStats where
  scannedFiles : Nat := 0
  addedSelectors : Nat := 0
deriving DecidableEq, Repr

/-- Lists the feature folders of a locale and tells about the directories that are none. -/
def listFolders (settings : Settings) (root : Path) : Work (List Path) := do
  let tree := (← get).tree
  tellAll (skippedFolders tree settings root)
  match featureFolders tree settings root with
  | .ok folders => return folders
  | .error fault => do
    tell (.walkFailed root)
    throw (.walk root fault)

def listFiles (folder : Path) : Work (List SourceFile) := do
  match sourceFiles (← get).tree folder with
  | .ok files => return files
  | .error fault => throw (.list folder fault)

/-- Adds the candidates of a file to the catalog, and counts the new names. -/
def scanFile (rules : Rules) (file : SourceFile) : Work Nat := do
  let content ← readFile file.path
  let growth := (← get).catalog.grow (rules.candidates file.kind content)
  modify fun workspace => { workspace with catalog := growth.catalog }
  tellAll (growth.added.map fun entry => .added entry.1 entry.2)
  match growth.exhausted with
  | none => return growth.added.length
  | some cause => throw (.exhausted cause)

def scanFiles (rules : Rules) (folder : Path) (stats : ScanStats) :
    List SourceFile → Work ScanStats
  | [] => return stats
  | file :: rest => do
    let added ← onFault (scanFile rules file) (.scanFailed file.name folder)
    let stats : ScanStats := ⟨stats.scannedFiles + 1, stats.addedSelectors + added⟩
    scanFiles rules folder stats rest

def scanFolders (rules : Rules) (stats : ScanStats) : List Path → Work ScanStats
  | [] => return stats
  | folder :: rest => do
    let stats ← scanFiles rules folder stats (← listFiles folder)
    scanFolders rules stats rest

/-- Scans every source file of a locale. -/
def scan (settings : Settings) (rules : Rules) (root : Path) : Work ScanStats := do
  scanFolders rules {} (← listFolders settings root)

end SelectorMangling.Site
