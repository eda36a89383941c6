import SelectorMangling.Catalog.Basic
import SelectorMangling.Json.Reader

/-!
# The catalog file

A catalog is written as one flat JSON object: a member for each name, in catalog order, and last a
member with the counter.  Reading takes the members in any order.  A name that is repeated keeps its
first place and its last value, and the counter is zero if it is missing.
-/

namespace SelectorMangling.Catalog

/-- The name of the member that holds the counter. -/
def countKey : String := "selectorCount"

inductive FormatError where
  | json (fault : Json.Fault)
  /-- The counter is not a whole number of 32 bits. -/
  | badCount
  /-- The value of a name is not a string. -/
  | badCode (name : String)
deriving DecidableEq, Repr

def FormatError.message : FormatError → String
  | .json fault => fault.message
  | .badCount => s!"`{countKey}` must be a non-negative integer"
  | .badCode name => s!"code of selector `{name}` must be a string"

/-- The members of an object with each name once, at its first place and with its last value. -/
def mergeMembers (members : List (String × Json.Value)) : List (String × Json.Value) :=
  members.foldl (fun merged member => Assoc.set member.1 member.2 merged) []

def counterOf? : Option Json.Value → Option { count : Nat // count < UInt32.size }
  | none => some ⟨0, Catalog.empty.count_lt⟩
  | some (.natural n) => if hlt : n < UInt32.size then some ⟨n, hlt⟩ else none
  | some _ => none

/-- The entries that members stand for, or the first name whose value is not a string. -/
def entriesOf : List (String × Json.Value) → Except FormatError (List (String × String))
  | [] => .ok []
  | (name, .text code) :: rest => (entriesOf rest).map ((name, code) :: ·)
  | (name, _) :: _ => .error (.badCode name)

theorem nodup_names_mergeMembers (members : List (String × Json.Value)) :
    ((mergeMembers members).map Prod.fst).Nodup := by
  suffices hfold : ∀ merged : List (String × Json.Value), (merged.map Prod.fst).Nodup →
      ((members.foldl (fun merged member => Assoc.set member.1 member.2 merged) merged).map
        Prod.fst).Nodup by
    exact hfold [] (by simp)
  induction members with
  | nil => exact fun merged hmerged => hmerged
  | cons member rest ih =>
    exact fun merged hmerged => ih _ (Assoc.nodup_keys_set hmerged)

theorem names_entriesOf {members : List (String × Json.Value)} {entries : List (String × String)}
    (hentries : entriesOf members = .ok entries) :
    entries.map Prod.fst = members.map Prod.fst := by
  induction members generalizing entries with
  | nil =>
    simp only [entriesOf, Except.ok.injEq] at hentries
    simp [← hentries]
  | cons member rest ih =>
    obtain ⟨name, value⟩ := member
    cases value with
    | text code =>
      cases hrest : entriesOf rest with
      | error cause => simp [entriesOf, hrest, Except.map] at hentries
      | ok tail =>
        simp only [entriesOf, hrest, Except.map, Except.ok.injEq] at hentries
        simp [← hentries, ih hrest]
    | natural n => simp [entriesOf] at hentries
    | other => simp [entriesOf] at hentries

/-- The catalog that the members of an object stand for.  The counter is looked at first. -/
def ofMembers (members : List (String × Json.Value)) : Except FormatError Catalog :=
  let merged := mergeMembers members
  match counterOf? (merged.lookup countKey) with
  | none => .error .badCount
  | some ⟨count, hcount⟩ =>
    match hentries : entriesOf (merged.filter fun member => member.1 != countKey) with
    | .error cause => .error cause
    | .ok entries =>
      .ok
        { entries
          count
          names_nodup := by
            rw [names_entriesOf hentries]
            exact Assoc.nodup_keys_filter _ (nodup_names_mergeMembers members)
          count_lt := hcount }

/-- Reads the text of a catalog.  What stands behind the object is looked at last. -/
def parse (text : String) : Except FormatError Catalog := do
  let (members, rest) ← (Json.readObject text.toList).mapError .json
  let catalog ← ofMembers members
  (Json.readEnd rest).mapError .json
  return catalog

/-- How a name with its code is written, with the comma behind it. -/
def renderEntry (entry : String × String) : List Char :=
  Json.writeText entry.1 ++ ':' :: Json.writeText entry.2 ++ [',']

def render (catalog : Catalog) : String :=
  String.ofList <|
    '\x7b' :: catalog.entries.flatMap renderEntry ++ Json.writeText countKey ++
      ':' :: (Nat.repr catalog.count).toList ++ ['\x7d']

end SelectorMangling.Catalog
