import SelectorMangling.Catalog.Basic

/-!
# Consistency

A catalog is accepted when its counter equals the number of its distinct codes or the number of
its names.
-/

namespace SelectorMangling

/-- Number of different texts in a list. -/
def distinctCount : List String → Nat
  | [] => 0
  | text :: rest => if text ∈ rest then distinctCount rest else distinctCount rest + 1

namespace Catalog

def distinctCodes (catalog : Catalog) : Nat := distinctCount catalog.codes

/-- The counter and the number of different codes of a catalog that is not consistent. -/
structure Duplicates where
  expected : Nat
  actual : Nat
deriving DecidableEq, Repr

def Duplicates.message (cause : Duplicates) : String :=
  s!"expected unique selector count is {cause.expected}, " ++
    s!"actual selector count is {cause.actual}"

/-- Accepts a catalog whose counter equals the number of its different codes or of its names. -/
def validate (catalog : Catalog) : Except Duplicates Unit :=
  if catalog.distinctCodes = catalog.count ∨ catalog.size = catalog.count then
    .ok ()
  else
    .error ⟨catalog.count, catalog.distinctCodes⟩

end Catalog

end SelectorMangling
