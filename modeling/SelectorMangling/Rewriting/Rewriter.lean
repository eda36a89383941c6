import SelectorMangling.Catalog.Basic
import SelectorMangling.Rewriting.Delimiter
import SelectorMangling.Rewriting.Occurrence

/-!
# Rewriting texts

Occurrences of cataloged names are replaced by their codes, from left to right.  An occurrence
without a delimiter before it is passed by, and the search goes on behind its first character.  What
lies between two replacements is written as it stands, and codes are never looked at again.

Of several names that occur at one place the longest is tried first, so that a name is never cut
short by another one that begins it.

Rewriting comes to an end if no name is empty.  The empty name occurs at every word boundary, and it
takes nothing off the text.
-/

namespace SelectorMangling.Rewriting

/-- A catalog and its names, in the order in which they are tried. -/
structure Rewriter where
  catalog : Catalog
  names : List (List Char)

/-- How far the rewriting of a text has come. -/
structure Progress where
  written : List Char := []
  /-- What stands between the last replacement and the place where the search goes on, nearest
  character first.  It is not written yet. -/
  kept : List Char := []
  /-- All of the text before that place, nearest character first. -/
  before : List Char := []
  rest : List Char
  /-- Names that were found in the text, but not in the catalog. -/
  unknown : List String := []
deriving DecidableEq, Repr

namespace Progress

/-- Goes on behind the first character of an occurrence. -/
def passBy (progress : Progress) (found : Occurrence) (first : Char) (rest : List Char) :
    Progress :=
  { progress with
    kept := first :: (found.skipped ++ progress.kept)
    before := first :: found.before
    rest }

/-- Writes a text in the place of an occurrence, after all that was kept before it, and goes on
behind the occurrence. -/
def replace (progress : Progress) (found : Occurrence) (text : List Char) : Progress :=
  { progress with
    written := text.reverse ++ (found.skipped ++ progress.kept ++ progress.written)
    kept := []
    before := found.name.reverse ++ found.before
    rest := found.text.drop found.name.length }

/-- Writes the code of an occurrence.  A name without a code stays as it is. -/
def writeCode (catalog : Catalog) (progress : Progress) (found : Occurrence) : Progress :=
  let name := String.ofList found.name
  match catalog.get? name with
  | some code => progress.replace found code.toList
  | none => { progress.replace found found.name with unknown := progress.unknown ++ [name] }

/-- The rewritten text, if nothing more is replaced. -/
def text (progress : Progress) : List Char :=
  (progress.kept ++ progress.written).reverse ++ progress.rest

end Progress

/-- What a turn of the loop comes to. -/
inductive Turn where
  /-- Nothing more is found. -/
  | ends
  | goesOn (next : Progress)
  /-- The next search would have to begin behind the end of the text. -/
  | fails
deriving DecidableEq, Repr

namespace Rewriter

/-- Searches once, and replaces what is found or passes it by. -/
def turn (rewriter : Rewriter) (progress : Progress) : Turn :=
  match searchNames rewriter.names [] progress.before progress.rest with
  | none => .ends
  | some found =>
    if isDelimited found.before then .goesOn (progress.writeCode rewriter.catalog found)
    else
      match found.text with
      | [] => .fails
      | first :: rest => .goesOn (progress.passBy found first rest)

section

variable (rewriter : Rewriter)

/-- Takes one turn after the other.  A loop that fails has no result.  Neither has one without an
end: behind the code of the empty name the search finds the empty name again, at the same place. -/
def finish (progress : Progress) : Option Progress :=
  match rewriter.turn progress with
  | .ends => some progress
  -- Called by a tactic, so that the term does not record the place of the call in this file.
  | .goesOn next => by apply finish; exact next
  | .fails => none
partial_fixpoint

end

def run (rewriter : Rewriter) (text : String) : Option Progress :=
  rewriter.finish { rest := text.toList }

/-- Replaces every delimited occurrence of a name by its code, if that comes to an end. -/
def rewrite (rewriter : Rewriter) (text : String) : Option String :=
  (rewriter.run text).map fun progress => String.ofList progress.text

end Rewriter

end SelectorMangling.Rewriting

namespace SelectorMangling.Catalog

/-- The names with the longest ones in bytes first; names of one length keep their order. -/
def longestFirst (catalog : Catalog) : List String :=
  catalog.names.mergeSort fun left right => right.utf8ByteSize ≤ left.utf8ByteSize

def rewriter (catalog : Catalog) : Rewriting.Rewriter :=
  { catalog, names := catalog.longestFirst.map String.toList }

/-- Replaces every delimited occurrence of a cataloged name by its code, if that comes to an end. -/
def rewrite (catalog : Catalog) (text : String) : Option String := catalog.rewriter.rewrite text

end SelectorMangling.Catalog
