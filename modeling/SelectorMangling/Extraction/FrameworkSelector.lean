import SelectorMangling.Extraction.Name
import SelectorMangling.Extraction.Search

/-!
# Framework selectors

Component and attribute selectors of a script: one of the configured prefixes, a hyphen, and a tail
of letters, hyphens and underscores that ends in a letter.  Prefixes stand for themselves and are
tried in order; the first one that is followed by such a tail wins.
-/

namespace SelectorMangling.Extraction

def isFrameworkChar (c : Char) : Bool := isLetter c || c == '-' || c == '_'

/-- The selector with a given stem at the front of a text. -/
def stemmedSelector? (text stem : List Char) : Option (List Char) :=
  let lead := stem ++ ['-']
  if lead.isPrefixOf text then
    (tail? isFrameworkChar isLetter (text.drop lead.length)).map (lead ++ ·)
  else
    none

def frameworkMatch? (stems : List (List Char)) (text : List Char) : Option Match :=
  (stems.findSome? (stemmedSelector? text)).map fun name => ⟨name, name.length⟩

/-- The framework selectors of a script with the given prefixes, in order.  Without any prefix, the
hyphen alone starts a selector. -/
def frameworkSelectors (stems : List String) (script : String) : List String :=
  let stems := if stems.isEmpty then [""] else stems
  (search (frameworkMatch? (stems.map String.toList)) script.toList).map String.ofList

end SelectorMangling.Extraction
