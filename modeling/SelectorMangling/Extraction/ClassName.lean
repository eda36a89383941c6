import SelectorMangling.Extraction.Name
import SelectorMangling.Extraction.Search

/-!
# Class names

Compound class names of a stylesheet: a dot, letters, a hyphen or two underscores, and a tail of
letters, digits, hyphens and underscores that ends in a letter or a digit.
-/

namespace SelectorMangling.Extraction

def isClassNameChar (c : Char) : Bool := isLetterOrDigit c || c == '-' || c == '_'

/-- The separator at the front of a text: a hyphen or two underscores. -/
def separator? : List Char → Option (List Char)
  | '-' :: _ => some ['-']
  | '_' :: '_' :: _ => some ['_', '_']
  | _ => none

def className? (text : List Char) : Option (List Char) :=
  let block := text.takeWhile isLetter
  if block.isEmpty then none
  else do
    let separator ← separator? (text.drop block.length)
    let lead := block ++ separator
    let tail ← tail? isClassNameChar isLetterOrDigit (text.drop lead.length)
    return lead ++ tail

/-- A dot that is followed by a class name. -/
def classNameMatch? : List Char → Option Match
  | '.' :: text => (className? text).map fun name => ⟨name, 1 + name.length⟩
  | _ => none

/-- The class names of a style source, in the order of their dots. -/
def classNames (source : String) : List String :=
  (search classNameMatch? source.toList).map String.ofList

end SelectorMangling.Extraction
