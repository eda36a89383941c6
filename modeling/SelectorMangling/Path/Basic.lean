import SelectorMangling.Text.Quoted

/-!
# Paths

A path is kept as it was written, because log lines and errors show it so.  What it means is read
off its components: separators that repeat or stand at the end do not count, and neither does a
single dot, unless it begins a relative path.
-/

namespace SelectorMangling

structure Path where
  text : String
deriving DecidableEq, Repr, Inhabited

namespace Path

inductive Component where
  /-- The separator at the front of an absolute path. -/
  | root
  /-- The single dot at the front of a relative path. -/
  | current
  /-- Two dots: the directory above. -/
  | parent
  | name (name : String)
deriving DecidableEq, Repr

/-- The pieces of a text between its separators. -/
def segments : List Char → List (List Char)
  | [] => [[]]
  | c :: rest =>
    if c = '/' then [] :: segments rest
    else
      match segments rest with
      | [] => [[c]]
      | segment :: others => (c :: segment) :: others

/-- What a piece stands for inside a path; empty pieces and single dots stand for nothing. -/
def Component.ofSegment? (segment : List Char) : Option Component :=
  if segment = [] ∨ segment = ['.'] then none
  else if segment = ['.', '.'] then some .parent
  else some (.name (String.ofList segment))

def isAbsolute (path : Path) : Bool := path.text.toList.head? == some '/'

def components (path : Path) : List Component :=
  let pieces := segments path.text.toList
  let inner := pieces.filterMap Component.ofSegment?
  if path.isAbsolute then .root :: inner
  else if pieces.head? = some ['.'] then .current :: inner
  else inner

def Component.text : Component → String
  | .root => "/"
  | .current => "."
  | .parent => ".."
  | .name label => label

/-- A path below another one: an absolute path stands for itself, and any other is written behind
the first with one separator between. -/
def join (base path : Path) : Path :=
  if path.isAbsolute then path
  else if base.text.isEmpty || base.text.toList.getLast? == some '/' then
    ⟨base.text ++ path.text⟩
  else ⟨base.text ++ "/" ++ path.text⟩

def child (base : Path) (name : String) : Path := base.join ⟨name⟩

def ofComponents (components : List Component) : Path :=
  components.foldl (fun path component => path.join ⟨component.text⟩) ⟨""⟩

/-- The path of the directory that an entry lies in.  The root and the empty path have none. -/
def parent? (path : Path) : Option Path :=
  match path.components.reverse with
  | [] | .root :: _ => none
  | _ :: earlier => some (ofComponents earlier.reverse)

/-- The last component, if it is a name. -/
def fileName? (path : Path) : Option String :=
  match path.components.getLast? with
  | some (.name name) => some name
  | _ => none

/-- What stands behind the last dot of a name; a dot at the front of the name does not count. -/
def extensionOf? (name : String) : Option String :=
  let behind := name.toList.reverse.takeWhile (· != '.')
  if name.length ≤ behind.length + 1 then none else some (String.ofList behind.reverse)

def extension? (path : Path) : Option String := path.fileName?.bind extensionOf?

/-- Whether the components of a path begin with those of another. -/
def startsWith (path base : Path) : Bool := base.components.isPrefixOf path.components

/-- How log lines and errors show a path: between double quotes, as it was written. -/
def quoted (path : Path) : String := Text.quoted path.text

end Path

end SelectorMangling
