import SelectorMangling.Catalog.Basic
import SelectorMangling.Code

/-!
# Allocation

New names get the code of the catalog's counter, which then moves on.  A name that is already
cataloged is never given another code.
-/

namespace SelectorMangling.Catalog

/-- Takes the code of the counter and moves the counter on.  The counter stays when it has no
code. -/
def allocate (catalog : Catalog) : Except Code.Exhausted (String × Catalog) :=
  match hcode : Code.ofCounter catalog.count with
  | .error cause => .error cause
  | .ok code =>
    .ok (code,
      { catalog with
        count := catalog.count + 1
        count_lt := by
          have hlt := Code.lt_capacity_of_ofCounter hcode
          have hcapacity : Code.capacity < UInt32.size - 1 := by decide
          omega })

def add (catalog : Catalog) (name : String) : Except Code.Exhausted (String × Catalog) :=
  match catalog.allocate with
  | .error cause => .error cause
  | .ok (code, advanced) => .ok (code, advanced.insert name code)

/-- What extending a catalog by a stream of names comes to: the catalog, the names added with
their codes in order, and the counter at which the codes ran out, if they did. -/
structure Growth where
  catalog : Catalog
  added : List (String × String) := []
  exhausted : Option Code.Exhausted := none

/-- Adds the names of a stream that are not cataloged yet, until the codes run out. -/
def grow (catalog : Catalog) : List String → Growth
  | [] => { catalog }
  | name :: rest =>
    if catalog.contains name then
      catalog.grow rest
    else
      match catalog.add name with
      | .error cause => { catalog, exhausted := some cause }
      | .ok (code, larger) =>
        let growth := larger.grow rest
        { growth with added := (name, code) :: growth.added }

end SelectorMangling.Catalog
