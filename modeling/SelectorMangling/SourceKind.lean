import SelectorMangling.Path.Basic

/-!
# Kinds of source files

The files in which selectors occur are told by their extensions.
-/

namespace SelectorMangling

inductive SourceKind where
  | script
  | markup
  | style
deriving DecidableEq, Repr

def SourceKind.ofExtension? : String → Option SourceKind
  | "js" => some .script
  | "html" => some .markup
  | "css" => some .style
  | _ => none

/-- The kind of the file at a path, if it is a source file. -/
def SourceKind.ofPath? (path : Path) : Option SourceKind :=
  path.extension?.bind SourceKind.ofExtension?

end SelectorMangling
