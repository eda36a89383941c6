import SelectorMangling.Unicode.Basic

/-!
# Delimiters

A name is replaced only where a delimiter stands before it: a quotation mark, a colon, a dot, an
opening tag or closing tag bracket, the two hyphens of a custom property, or white space.  A double
quotation mark that opens the value of a `path` member does not count, since route paths are not
selectors.

The text before a place is given as a list with the nearest character first.
-/

namespace SelectorMangling.Rewriting

/-- The single characters that delimit a name whatever stands before them: the apostrophe, the
colon, the dot, the backtick and the opening angle bracket. -/
def plainDelimiters : List Char := ['\x27', ':', '.', '\x60', '<']

/-- What stands, nearest character first, before the quotation mark of a route path. -/
def pathMember : List Char := [':', 'h', 't', 'a', 'p']

/-- Whether a delimiter stands directly before a place. -/
def isDelimited : List Char → Bool
  | [] => false
  | nearest :: earlier =>
    if plainDelimiters.contains nearest then true
    else if nearest = '/' then earlier.head? == some '<'
    else if nearest = '-' then earlier.head? == some '-'
    else if nearest = '"' then !pathMember.isPrefixOf earlier
    else Unicode.isBlank nearest

/-- The byte offsets of a text at which a delimiter stands directly before. -/
def delimitedOffsets (text : String) : List Nat :=
  go 0 [] text.toList
where
  go (offset : Nat) (before : List Char) : List Char → List Nat
    | [] => if isDelimited before then [offset] else []
    | c :: rest =>
      let later := go (offset + c.utf8Size) (c :: before) rest
      if isDelimited before then offset :: later else later

end SelectorMangling.Rewriting
