import SelectorMangling.Extraction.Name
import SelectorMangling.Extraction.Search

/-!
# Custom properties

Declarations of compound custom properties: two hyphens, letters, a hyphen, a tail of letters,
digits and hyphens that ends in a letter or a digit, and a colon.  The name is what stands between
the two hyphens and the colon.
-/

namespace SelectorMangling.Extraction

def isPropertyChar (c : Char) : Bool := isLetterOrDigit c || c == '-'

/-- The property name at the front of a text, which reaches up to a colon. -/
def propertyName? (text : List Char) : Option (List Char) :=
  let block := text.takeWhile isLetter
  match text.drop block.length with
  | '-' :: rest =>
    let tail := rest.takeWhile isPropertyChar
    if block.isEmpty || tail.length < 2 || !(tail.getLast?.any isLetterOrDigit) then none
    else if (rest.drop tail.length).head? = some ':' then some (block ++ '-' :: tail)
    else none
  | _ => none

/-- Two hyphens that are followed by a property name and a colon. -/
def customPropertyMatch? : List Char → Option Match
  | '-' :: '-' :: text => (propertyName? text).map fun name => ⟨name, 3 + name.length⟩
  | _ => none

/-- The custom properties that a style source declares, in order and without their two hyphens. -/
def customProperties (source : String) : List String :=
  (search customPropertyMatch? source.toList).map String.ofList

end SelectorMangling.Extraction
