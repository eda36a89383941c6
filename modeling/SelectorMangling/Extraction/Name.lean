/-!
# Characters of selector names

Extracted names are made of ASCII lower case letters, digits, hyphens and underscores.  Each kind
of selector allows its own set of them, and names never end in a hyphen or an underscore.
-/

namespace SelectorMangling.Extraction

def isLetter (c : Char) : Bool := 'a' ≤ c && c ≤ 'z'

def isLetterOrDigit (c : Char) : Bool := isLetter c || ('0' ≤ c && c ≤ '9')

theorem isLetter_eq_isLower (c : Char) : isLetter c = c.isLower := rfl

theorem isLetterOrDigit_eq (c : Char) : isLetterOrDigit c = (c.isLower || c.isDigit) := rfl

/-- A run without its last characters, up to the last one that may end a name. -/
def trimEnd (mayEnd : Char → Bool) (run : List Char) : List Char :=
  (run.reverse.dropWhile fun c => !mayEnd c).reverse

/-- The longest part at the front of a text whose characters are all allowed, whose last one may
end a name, and that is at least two characters long. -/
def tail? (isAllowed mayEnd : Char → Bool) (text : List Char) : Option (List Char) :=
  let tail := trimEnd mayEnd (text.takeWhile isAllowed)
  if tail.length < 2 then none else some tail

end SelectorMangling.Extraction
