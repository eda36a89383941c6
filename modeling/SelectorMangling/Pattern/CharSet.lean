import SelectorMangling.Unicode.Basic
import SelectorMangling.Unicode.CaseFold
import SelectorMangling.Unicode.Word

/-!
# Character sets

The sets of characters that a pattern can ask for at one place of a text.
-/

namespace SelectorMangling.Pattern

inductive CharSet where
  | empty
  /-- The characters between two code points, both included. -/
  | range (first last : Nat)
  | digit
  | word
  | blank
  | union (left right : CharSet)
  | inter (left right : CharSet)
  | complement (set : CharSet)
  /-- A set together with what differs from its members in case only. -/
  | anyCase (set : CharSet)
deriving Repr

namespace CharSet

def single (c : Char) : CharSet := .range c.toNat c.toNat

/-- The set of one character or, if case does not matter, of its variants. -/
def ofChar (anyCase : Bool) (c : Char) : CharSet :=
  if anyCase then .anyCase (single c) else single c

def diff (left right : CharSet) : CharSet := .inter left (.complement right)

def symmDiff (left right : CharSet) : CharSet := .union (diff left right) (diff right left)

def contains : CharSet → Char → Bool
  | empty, _ => false
  | range first last, c => first ≤ c.toNat && c.toNat ≤ last
  | digit, c => Unicode.isDecimalDigit c
  | word, c => Unicode.isWordChar c
  | blank, c => Unicode.isBlank c
  | union left right, c => left.contains c || right.contains c
  | inter left right, c => left.contains c && right.contains c
  | complement set, c => !set.contains c
  | anyCase set, c => (Unicode.caseVariants c).any set.contains

/-- A measure of the room that a set takes in a compiled pattern.  Classes that reach over all
scripts take more than ranges of letters. -/
def weight : CharSet → Nat
  | empty => 1
  | range _ last => if last < 0x80 then 1 else 4
  | digit => 150
  | word => 1500
  | blank => 16
  | union left right => max left.weight right.weight
  | inter left right => max left.weight right.weight
  | complement set => max set.weight 12
  | anyCase set => set.weight

end CharSet

end SelectorMangling.Pattern
