import SelectorMangling.Assoc
import SelectorMangling.Toml.Value

/-!
# TOML tables

The tables of a document while it is read.  Members keep the order in which they came.  A table may
come about in passing, from a header or a dotted key that goes through it; only such a table may
still be opened by a header of its own, and only one that came from dotted keys may get more
members by dotted keys.
-/

namespace SelectorMangling.Toml

/-- What a key of a table under construction holds. -/
inductive Item where
  | value (value : Value)
  /-- A table, whether it came about in passing, and whether by a dotted key. -/
  | table (implicit dotted : Bool) (members : List (String × Item))
  /-- The tables of an array of tables. -/
  | tables (rows : List (List (String × Item)))

abbrev Members := List (String × Item)

namespace Members

def get? (members : Members) (key : String) : Option Item := members.lookup key

def set (members : Members) (key : String) (item : Item) : Members := Assoc.set key item members

def erase (members : Members) (key : String) : Members :=
  members.filter fun member => member.1 != key

end Members

/-- Changes the table that a path of keys leads to.  Tables on the way come about in passing, and
the way through an array of tables leads into its last one.  The change is told whether the table
it is given came from dotted keys. -/
def changeAt? (dotted : Bool) (change? : Bool → Members → Option Members) :
    (isDotted : Bool) → List String → Members → Option Members
  | isDotted, [], members => change? isDotted members
  | _, key :: path, members =>
    match members.get? key with
    | none => do
      let inner ← changeAt? dotted change? dotted path []
      return members.set key (.table true dotted inner)
    | some (.value _) => none
    | some (.table implicit isDotted inner) =>
      if dotted && !implicit then none
      else do
        let inner ← changeAt? dotted change? isDotted path inner
        return members.set key (.table implicit isDotted inner)
    | some (.tables rows) =>
      match rows.getLast? with
      | none => none
      | some last => do
        let last ← changeAt? dotted change? false path last
        return members.set key (.tables (rows.dropLast ++ [last]))

/-- Adds a member by a key that goes through the tables of a path.  The key must be new, and the
table that it comes to must have come from dotted keys exactly if there is such a path. -/
def insert? (path : List String) (key : String) (value : Value) (members : Members) :
    Option Members :=
  changeAt? true
    (fun isDotted members =>
      if isDotted = path.isEmpty then none
      else if (members.get? key).isSome then none
      else some (members.set key (.value value)))
    false path members

/-- A document while it is read: the tables that are closed, and the one that members are being
added to with its path and whether it is one of an array. -/
structure Draft where
  root : Members := []
  path : List String := []
  isRow : Bool := false
  members : Members := []

namespace Draft

/-- Puts the open table in its place. -/
def close? (draft : Draft) : Option Members :=
  match draft.path.getLast? with
  | none => some draft.members
  | some key =>
    changeAt? false
      (fun _ members =>
        if draft.isRow then
          match members.get? key with
          | none => some (members.set key (.tables [draft.members]))
          | some (.tables rows) => some (members.set key (.tables (rows ++ [draft.members])))
          | some _ => none
        else
          match members.get? key with
          | none => some (members.set key (.table false false draft.members))
          | some (.table true _ _) => some (members.set key (.table false false draft.members))
          | some _ => none)
      false draft.path.dropLast draft.root

/-- The members of a table that a header may open again, nothing if there is none, and `none` if
there is something else. -/
def reopened? : Option Item → Option Members
  | none => some []
  | some (.table true false members) => some members
  | some _ => none

def membersAt? : List String → Members → Option Members
  | [], members => some members
  | key :: path, members =>
    match members.get? key with
    | none => membersAt? path []
    | some (.value _) => none
    | some (.table _ _ inner) => membersAt? path inner
    | some (.tables rows) =>
      match rows.getLast? with
      | none => none
      | some last => membersAt? path last

/-- Opens the table of a header.  A table that came about in passing is taken out of its place and
gets a new one when it is closed. -/
def openTable? (draft : Draft) (path : List String) : Option Draft := do
  let root ← draft.close?
  let key ← path.getLast?
  let parent ← membersAt? path.dropLast root
  let members ← reopened? (parent.get? key)
  let root ← changeAt? false (fun _ members => some (members.erase key)) false path.dropLast root
  return { root, path, isRow := false, members }

/-- Opens a new table of the array of a header. -/
def openRow? (draft : Draft) (path : List String) : Option Draft := do
  let root ← draft.close?
  let key ← path.getLast?
  let root ←
    changeAt? false
      (fun _ members =>
        match members.get? key with
        | none => some (members.set key (.tables []))
        | some (.tables _) => some members
        | some _ => none)
      false path.dropLast root
  return { root, path, isRow := true, members := [] }

def insert? (draft : Draft) (path : List String) (key : String) (value : Value) :
    Option Draft := do
  return { draft with members := ← Toml.insert? path key value draft.members }

end Draft

/-- The value that an item stands for once the document is read. -/
def Item.toValue : Item → Value
  | .value content => content
  | .table _ _ _ => .map
  | .tables rows => .array (rows.map fun _ => .map)

end SelectorMangling.Toml
