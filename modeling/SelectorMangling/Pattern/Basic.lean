import SelectorMangling.Pattern.CharSet

/-!
# Patterns

A pattern is found in a text if some part of the text matches it.  Which part that is does not
matter here, so that the greedy and the lazy form of a repetition are the same pattern.

Matching computes, for a place of the text, the places at which a match that begins there may end.
-/

namespace SelectorMangling

namespace Pattern

inductive Anchor where
  | textStart
  | textEnd
  | lineStart
  | lineEnd
  /-- The start of a line, where a carriage return ends lines as well. -/
  | returnedLineStart
  | returnedLineEnd
  | wordBoundary
  | noWordBoundary
  | wordStart
  | wordEnd
  /-- No word lies before the place, whatever is behind it. -/
  | wordStartHalf
  | wordEndHalf
deriving DecidableEq, Repr

/-- A place of a text: the character before it and the text after it. -/
structure Place where
  before : Option Char
  after : List Char
deriving DecidableEq, Repr

namespace Place

def start (text : List Char) : Place := ⟨none, text⟩

def isAfterWord (place : Place) : Bool := place.before.any Unicode.isWordChar

def isBeforeWord (place : Place) : Bool := place.after.head?.any Unicode.isWordChar

/-- All places of a text from the given one on. -/
def onwards (before : Option Char) : List Char → List Place
  | [] => [⟨before, []⟩]
  | c :: rest => ⟨before, c :: rest⟩ :: onwards (some c) rest

end Place

def Anchor.holds : Anchor → Place → Bool
  | textStart, place => place.before.isNone
  | textEnd, place => place.after.isEmpty
  | lineStart, place => place.before.isNone || place.before == some '\n'
  | lineEnd, place => place.after.isEmpty || place.after.head? == some '\n'
  | returnedLineStart, place =>
    place.before.isNone || place.before == some '\n' ||
      (place.before == some '\r' && place.after.head? != some '\n')
  | returnedLineEnd, place =>
    place.after.isEmpty || place.after.head? == some '\r' ||
      (place.after.head? == some '\n' && place.before != some '\r')
  | wordBoundary, place => place.isAfterWord != place.isBeforeWord
  | noWordBoundary, place => place.isAfterWord == place.isBeforeWord
  | wordStart, place => !place.isAfterWord && place.isBeforeWord
  | wordEnd, place => place.isAfterWord && !place.isBeforeWord
  | wordStartHalf, place => !place.isAfterWord
  | wordEndHalf, place => !place.isBeforeWord

end Pattern

/-- What a text is searched for. -/
inductive Pattern where
  | empty
  | char (set : Pattern.CharSet)
  | anchor (condition : Pattern.Anchor)
  | seq (left right : Pattern)
  | alt (left right : Pattern)
  /-- A pattern at least `least` and at most `most` times in a row. -/
  | times (item : Pattern) (least : Nat) (most : Option Nat)
  /-- A group that captures what it matches, with its name if it has one. -/
  | group (name : Option String) (item : Pattern)
deriving Repr

namespace Pattern

/-- Adds the places of the second list that the first one lacks. -/
def mergePlaces (places : List Place) : List Place → List Place
  | [] => places
  | place :: rest =>
    if places.contains place then mergePlaces places rest
    else mergePlaces (places ++ [place]) rest

/-- The places reached from some places by exactly `count` steps.  It stops early when a step leads
nowhere new. -/
def stepExactly (step : Place → List Place) : (count : Nat) → List Place → List Place
  | 0, places => places
  | count + 1, places =>
    let next := mergePlaces [] (places.flatMap step)
    if next = places then places else stepExactly step count next

def stepUpTo (step : Place → List Place) : (count : Nat) → List Place → List Place
  | 0, places => places
  | count + 1, places =>
    let next := mergePlaces places (places.flatMap step)
    if next = places then places else stepUpTo step count next

/-- The places at which a match that begins at `place` may end. -/
def ends : Pattern → Place → List Place
  | empty, place => [place]
  | char set, place =>
    match place.after with
    | [] => []
    | c :: rest => if set.contains c then [⟨some c, rest⟩] else []
  | anchor condition, place => if condition.holds place then [place] else []
  | seq left right, place => mergePlaces [] ((left.ends place).flatMap right.ends)
  | alt left right, place => mergePlaces (left.ends place) (right.ends place)
  | times item least most, place =>
    let required := stepExactly item.ends least [place]
    match most with
    | none => stepUpTo item.ends place.after.length required
    | some most => stepUpTo item.ends (most - least) required
  | group _ item, place => item.ends place

def isFoundIn (pattern : Pattern) (text : String) : Bool :=
  (Place.onwards none text.toList).any fun place => !(pattern.ends place).isEmpty

def groupNames : Pattern → List String
  | empty | char _ | anchor _ => []
  | seq left right | alt left right => left.groupNames ++ right.groupNames
  | times item _ _ => item.groupNames
  | group name item => name.toList ++ item.groupNames

/-- A measure of the room that a pattern takes once every repetition is written out. -/
def weight : Pattern → Nat
  | empty => 0
  | char set => set.weight
  | anchor _ => 1
  | seq left right => left.weight + right.weight
  | alt left right => left.weight + right.weight + 1
  | times item least most => item.weight * max least (most.getD (least + 1)) + 1
  | group _ item => item.weight + 2

end Pattern

end SelectorMangling
