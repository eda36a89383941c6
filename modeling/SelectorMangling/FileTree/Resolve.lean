import SelectorMangling.FileTree.Basic

/-!
# Finding what a path leads to

A path is followed step by step from the root or from the current directory.  Links on the way are
replaced by their targets, up to a number of them that no sensible tree needs.
-/

namespace SelectorMangling

inductive FileFault where
  | notFound
  | notDirectory
  | isDirectory
  | alreadyExists
  | tooManyLinks
  /-- The bytes of a file are no text. -/
  | notText
deriving DecidableEq, Repr

def FileFault.message : FileFault → String
  | notFound => "No such file or directory (os error 2)"
  | notDirectory => "Not a directory (os error 20)"
  | isDirectory => "Is a directory (os error 21)"
  | alreadyExists => "File exists (os error 17)"
  | tooManyLinks => "Too many levels of symbolic links (os error 40)"
  | notText => "stream did not contain valid UTF-8"

/-- The steps of a path, as it is written: names, dots, and empty steps for separators that repeat
or stand at an end. -/
def Path.steps (path : Path) : List String :=
  (Path.segments path.text.toList).map String.ofList

namespace FileTree

/-- What a path leads to. -/
inductive Target where
  | found (location : Location) (entry : Entry)
  /-- Nothing, but the directory that it would lie in is there. -/
  | vacant (location : Location)

/-- How many links are followed on the way. -/
def linkLimit : Nat := 40

/-- Follows steps from a directory.  A link at the last step is followed if `followLast` is set. -/
def follow (tree : FileTree) (followLast : Bool) (links : Nat) (directory : Location)
    (steps : List String) : Except FileFault Target :=
  match steps with
  | [] => .ok (.found directory .directory)
  | step :: rest =>
    if step = "" ∨ step = "." then tree.follow followLast links directory rest
    else if step = ".." then tree.follow followLast links directory.dropLast rest
    else
      let location := directory ++ [step]
      match tree.entryAt location with
      | none => if rest.isEmpty then .ok (.vacant location) else .error .notFound
      | some .directory => tree.follow followLast links location rest
      | some (.file content) =>
        if rest.isEmpty then .ok (.found location (.file content)) else .error .notDirectory
      | some (.link target) =>
        if rest.isEmpty && !followLast then .ok (.found location (.link target))
        else
          match links with
          | 0 => .error .tooManyLinks
          | links + 1 =>
            let start := if target.isAbsolute then [] else directory
            tree.follow followLast links start (target.steps ++ rest)
termination_by (links, steps.length)

/-- What a path leads to.  The empty path leads nowhere. -/
def resolve (tree : FileTree) (followLast : Bool) (path : Path) : Except FileFault Target :=
  if path.text.isEmpty then .error .notFound
  else
    let start := if path.isAbsolute then [] else tree.current
    tree.follow followLast linkLimit start path.steps

/-- The location and the entry that a path leads to, links followed. -/
def find (tree : FileTree) (path : Path) : Except FileFault (Location × Entry) := do
  match ← tree.resolve true path with
  | .found location entry => return (location, entry)
  | .vacant _ => .error .notFound

/-- The location and the entry that a path leads to, a link at its end not followed. -/
def findLink (tree : FileTree) (path : Path) : Except FileFault (Location × Entry) := do
  match ← tree.resolve false path with
  | .found location entry => return (location, entry)
  | .vacant _ => .error .notFound

def exists? (tree : FileTree) (path : Path) : Bool := (tree.find path).isOk

def isDirectory (tree : FileTree) (path : Path) : Bool :=
  match tree.find path with
  | .ok (_, entry) => entry.isDirectory
  | .error _ => false

def isFile (tree : FileTree) (path : Path) : Bool :=
  match tree.find path with
  | .ok (_, entry) => entry.isFile
  | .error _ => false

end FileTree

end SelectorMangling
