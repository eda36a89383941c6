/-!
# Occurrences of names

Words are made of ASCII letters, digits and the underscore; any other character, and either end of
the text, lies outside words.  A name occurs at a place of a text if it begins and ends there at word
boundaries.  A search stops at the first place at which one of the names occurs; of the names that
occur there it takes the first one in the list.

The end of the text is a place like any other one.  Only the empty name can occur there.

The text before a place is given as a list with the nearest character first.
-/

namespace SelectorMangling.Rewriting

def isWord (c : Char) : Bool := c.isAlphanum || c == '_'

theorem isWord_eq (c : Char) : isWord c = (c.isUpper || c.isLower || c.isDigit || c == '_') := rfl

def isWordSide : Option Char → Bool
  | none => false
  | some c => isWord c

/-- Whether a word begins or ends between two characters. -/
def isBoundary (before after : Option Char) : Bool := isWordSide before != isWordSide after

/-- Whether a name begins at a place, and both the place and the end of the name are word
boundaries. -/
def occursAt (before rest name : List Char) : Bool :=
  name.isPrefixOf rest &&
    isBoundary before.head? rest.head? &&
    isBoundary (name.reverse ++ before).head? (rest.drop name.length).head?

/-- An occurrence of a name that a search has found. -/
structure Occurrence where
  name : List Char
  /-- What the search passed by on its way, nearest character first. -/
  skipped : List Char
  /-- All of the text before the occurrence, nearest character first. -/
  before : List Char
  /-- The text from the start of the occurrence on. -/
  text : List Char
deriving DecidableEq, Repr

/-- Searches the rest of a text for an occurrence of a name.  The text before it counts for word
boundaries only. -/
def searchNames (names : List (List Char)) (skipped before rest : List Char) :
    Option Occurrence :=
  match names.find? (occursAt before rest) with
  | some name => some { name, skipped, before, text := rest }
  | none =>
    match rest with
    | [] => none
    | first :: rest => searchNames names (first :: skipped) (first :: before) rest

/-- A search takes the first name that occurs at the place where it stops. -/
theorem find?_of_searchNames {names : List (List Char)} {skipped before rest : List Char}
    {found : Occurrence} (hfound : searchNames names skipped before rest = some found) :
    names.find? (occursAt found.before found.text) = some found.name := by
  induction rest generalizing skipped before with
  | nil =>
    rw [searchNames] at hfound
    split at hfound
    · next name hname =>
      obtain rfl := Option.some.inj hfound
      exact hname
    · contradiction
  | cons first tail ih =>
    rw [searchNames] at hfound
    split at hfound
    · next name hname =>
      obtain rfl := Option.some.inj hfound
      exact hname
    · exact ih hfound

theorem occursAt_of_searchNames {names : List (List Char)} {skipped before rest : List Char}
    {found : Occurrence} (hfound : searchNames names skipped before rest = some found) :
    occursAt found.before found.text found.name = true :=
  List.find?_some (find?_of_searchNames hfound)

end SelectorMangling.Rewriting
