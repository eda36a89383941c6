import SelectorMangling.CommandLine.Report

/-!
# The program

Takes a picture of the files that a run can touch, runs the command on it, and writes the files that
have changed.
-/

namespace SelectorMangling

open Site

/-- What the system has at a location, a link not followed.  Links count by what they lead to in the
end, and files that are not `wanted` count as empty. -/
def entryOnDisk? (wanted : Bool) (location : Location) : IO (Option Entry) := do
  try
    let file := (← IO.currentDir) / (FileTree.pathOf location).text
    match (← file.symlinkMetadata).type with
    | .dir => return some .directory
    | .file => return some (.file (← if wanted then IO.FS.readBinFile file else pure .empty))
    | .symlink => return some (.link ⟨(← IO.FS.realPath file).toString⟩)
    | .other => return none
  catch _ => return none

/-- Adds what stands on the way along the steps of a path, and at its end. -/
def loadAlong (links : Nat) (tree : FileTree) (directory : Location) (steps : List String) :
    IO FileTree :=
  match steps with
  | [] => return tree
  | step :: rest =>
    if step = "" ∨ step = "." then loadAlong links tree directory rest
    else if step = ".." then loadAlong links tree directory.dropLast rest
    else do
      let location := directory ++ [step]
      match ← entryOnDisk? true location with
      | none => return tree
      | some (.link target) =>
        match links with
        | 0 => return tree
        | links + 1 =>
          loadAlong links (tree.set location (.link target)) [] (target.steps ++ rest)
      | some entry => loadAlong links (tree.set location entry) location rest
termination_by (links, steps.length)

/-- Adds what stands on the way along a path, and at its end. -/
def loadPath (tree : FileTree) (path : Path) : IO FileTree :=
  loadAlong FileTree.linkLimit tree [] (tree.currentPath.join path).steps

/-- Adds the searched directories below a location and their files, down to a depth that no path
can have. -/
def loadBelow (settings : Settings) : (depth : Nat) → FileTree → Location → IO FileTree
  | 0, tree, _ => return tree
  | depth + 1, tree, directory => do
    let folder := (← IO.currentDir) / (FileTree.pathOf directory).text
    let mut tree := tree
    for child in ← folder.readDir do
      let location := directory ++ [child.fileName]
      if (tree.entryAt location).isNone then
        let wanted := (SourceKind.ofPath? (FileTree.pathOf location)).isSome
        match ← entryOnDisk? wanted location with
        | none => pure ()
        | some (.link target) => tree := ← loadPath (tree.set location (.link target)) target
        | some entry =>
          tree := tree.set location entry
          if entry.isDirectory && isSearched settings child.fileName then
            tree := ← loadBelow settings depth tree location
    return tree

/-- The files that a run can touch. -/
def loadTree (arguments : Arguments) : IO FileTree := do
  let current : Path := ⟨(← IO.currentDir).toString⟩
  let start := { FileTree.empty with current := current.steps.filter (· != "") }
  let tree ← loadPath start (arguments.options.config.getD ⟨Settings.defaultFile⟩)
  match Settings.ofOptions tree arguments.options with
  | .error _ => return tree
  | .ok settings => do
    let tree ← loadPath tree settings.cachePath
    let root := localeDirectory settings arguments.locale
    let tree ← loadPath tree root
    match tree.find root with
    | .ok (location, .directory) => loadBelow settings 4096 tree location
    | _ => return tree

def storeFile (file : Path × ByteArray) : IO Unit := do
  if let some directory := file.1.parent? then
    IO.FS.createDirAll directory.text
  IO.FS.writeBinFile file.1.text file.2

def runProgram (arguments : Arguments) : IO UInt32 := do
  let started ← IO.monoNanosNow
  let tree ← loadTree arguments
  let (result, workspace) := ((runCommand arguments).run).run { tree }
  (FileTree.changedFiles tree workspace.tree).forM storeFile
  let seconds := secondsText ((← IO.monoNanosNow) - started)
  for event in workspace.events do
    if event.level != .debug then
      IO.eprintln (event.line seconds)
  match result with
  | .ok () => return 0
  | .error fault =>
    if fault.isReturned then
      IO.eprintln (failureReport fault.chain)
      return 1
    else return 101

def tellStop (stop : Arguments.Stop) : IO UInt32 := do
  if stop.isAnswer then IO.print stop.report else IO.eprint stop.report
  return stop.exitCode

end SelectorMangling

/-- Mangles the selectors of the locale that the arguments name. -/
def main (arguments : List String) : IO UInt32 :=
  match SelectorMangling.Arguments.parse arguments with
  | .ok arguments => SelectorMangling.runProgram arguments
  | .error stop => SelectorMangling.tellStop stop
