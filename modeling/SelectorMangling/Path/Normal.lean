import SelectorMangling.Path.Basic

/-!
# Normal paths

The normal form of a path has no needless separator, no single dot, and two dots only where there
is no name before them to take back: at the front of a relative path.  It is found from the text
alone, without looking at any file.
-/

namespace SelectorMangling.Path

/-- Adds a component to the components before it, nearest first.  Two dots take back a name, and
at the root they do nothing. -/
def pushComponent (before : List Component) : Component → List Component
  | .current => before
  | .parent =>
    match before with
    | .name _ :: earlier => earlier
    | .root :: _ => before
    | _ => .parent :: before
  | component => component :: before

def normalComponents (path : Path) : List Component :=
  (path.components.foldl pushComponent []).reverse

/-- The normal form of a path; a single dot if nothing is left of it. -/
def normalize (path : Path) : Path :=
  match path.normalComponents with
  | [] => ⟨"."⟩
  | components => ofComponents components

end SelectorMangling.Path
