import SelectorMangling.FileTree.Content
import SelectorMangling.Site.Event
import SelectorMangling.Site.Fault

/-!
# Workspaces

A run works on a file tree and on a catalog in memory, and tells about its progress.  What it did up
to a fault stays done.
-/

namespace SelectorMangling.Site

/-- What a run works on. -/
structure Workspace where
  tree : FileTree
  catalog : Catalog := Catalog.empty
  events : Array Event := #[]
deriving Inhabited

/-- A piece of work that may fail. -/
abbrev Work := ExceptT Fault (StateM Workspace)

def tell (event : Event) : Work Unit :=
  modify fun workspace => { workspace with events := workspace.events.push event }

def tellAll (events : List Event) : Work Unit :=
  modify fun workspace => { workspace with events := workspace.events ++ events }

/-- Tells about an event if a piece of work fails and comes back. -/
def onFault (work : Work α) (event : Event) : Work α :=
  tryCatch work fun fault => do
    if fault.isReturned then
      tell event
    throw fault

def readFile (path : Path) : Work String := do
  match (← get).tree.readText path with
  | .ok text => return text
  | .error fault => throw (.read path fault)

def writeFile (path : Path) (text : String) : Work Unit := do
  match (← get).tree.writeText path text with
  | .ok tree => modify fun workspace => { workspace with tree }
  | .error fault => throw (.write path fault)

/-- Reads the catalog of a file into memory. -/
def loadCatalog (path : Path) : Work Unit := do
  match Catalog.load (← get).tree path with
  | .ok catalog => modify fun workspace => { workspace with catalog }
  | .error fault => throw (.load fault)

def saveCatalog (path : Path) : Work Unit := do
  let workspace ← get
  let (tree, result) := workspace.catalog.save workspace.tree path
  set { workspace with tree }
  match result with
  | .ok () => return
  | .error fault => throw (.save fault)

end SelectorMangling.Site
