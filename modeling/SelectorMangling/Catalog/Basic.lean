import SelectorMangling.Assoc
import SelectorMangling.Text.Quoted

/-!
# Catalogs

A catalog maps selector names to codes and counts the codes that were handed out.  Names keep the
order in which they were first inserted, which is also the order of the catalog file.
-/

namespace SelectorMangling

/-- Selector names with their codes, and the number of codes handed out so far. -/
structure Catalog where
  entries : List (String × String) := []
  count : Nat := 0
  names_nodup : (entries.map Prod.fst).Nodup := by simp
  count_lt : count < UInt32.size := by decide
deriving DecidableEq

namespace Catalog

def empty : Catalog := {}

instance : Inhabited Catalog := ⟨empty⟩

def names (catalog : Catalog) : List String := catalog.entries.map Prod.fst

def codes (catalog : Catalog) : List String := catalog.entries.map Prod.snd

def size (catalog : Catalog) : Nat := catalog.entries.length

def isEmpty (catalog : Catalog) : Bool := catalog.entries.isEmpty

def get? (catalog : Catalog) (name : String) : Option String := catalog.entries.lookup name

def contains (catalog : Catalog) (name : String) : Bool := catalog.names.contains name

/-- Sets the code of a name and leaves the counter alone.  A name that is already cataloged keeps
its place. -/
def insert (catalog : Catalog) (name code : String) : Catalog :=
  { catalog with
    entries := Assoc.set name code catalog.entries
    names_nodup := Assoc.nodup_keys_set catalog.names_nodup }

/-- Whether two catalogs hold the same codes for the same names under the same counter, in
whatever order. -/
def agrees (left right : Catalog) : Bool :=
  left.count == right.count && left.size == right.size &&
    left.entries.all fun entry => right.get? entry.1 == some entry.2

def displayEntry (entry : String × String) : String :=
  "        " ++ Text.quoted entry.1 ++ ": " ++ Text.quoted entry.2 ++ ",\n"

/-- A catalog over several lines, every part indented below what it belongs to, as a log line shows
it. -/
def display (catalog : Catalog) : String :=
  let entries :=
    if catalog.isEmpty then "\x7b\x7d"
    else "\x7b\n" ++ String.join (catalog.entries.map displayEntry) ++ "    \x7d"
  "SelectorCatalog \x7b\n    entries: " ++ entries ++ ",\n    count: " ++
    Nat.repr catalog.count ++ ",\n\x7d"

theorem notMem_names_empty (name : String) : name ∉ empty.names := by
  simp [empty, names]

theorem get?_eq_some_iff {catalog : Catalog} {name code : String} :
    catalog.get? name = some code ↔ (name, code) ∈ catalog.entries :=
  Assoc.lookup_eq_some_iff catalog.names_nodup

theorem get?_eq_none_iff {catalog : Catalog} {name : String} :
    catalog.get? name = none ↔ name ∉ catalog.names :=
  Assoc.lookup_eq_none_iff

theorem exists_get?_of_mem_names {catalog : Catalog} {name : String}
    (hname : name ∈ catalog.names) : ∃ code, catalog.get? name = some code := by
  cases hcode : catalog.get? name with
  | none => exact absurd hname (get?_eq_none_iff.mp hcode)
  | some code => exact ⟨code, rfl⟩

theorem mem_names_of_get? {catalog : Catalog} {name code : String}
    (hcode : catalog.get? name = some code) : name ∈ catalog.names :=
  List.mem_map_of_mem (get?_eq_some_iff.mp hcode)

@[simp]
theorem count_insert (catalog : Catalog) (name code : String) :
    (catalog.insert name code).count = catalog.count := rfl

end Catalog

end SelectorMangling
