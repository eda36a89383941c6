import SelectorMangling.Extraction.Search

/-!
# Style bodies

Scripts of compiled components carry their styles in arrays: `styles:[`, a quotation mark, the
body, the same mark and a closing bracket.  The body is the shortest one that is not empty.
-/

namespace SelectorMangling.Extraction

/-- What stands before the quotation mark of a style array. -/
def stylesOpening : List Char := ['s', 't', 'y', 'l', 'e', 's', ':', '[']

/-- The marks that may quote a style body: the apostrophe, the double quotation mark and the
backtick. -/
def styleQuotes : List Char := ['\x27', '"', '\x60']

/-- What stands before the first `quote` that a closing bracket follows; `taken` has been read
already, nearest character first. -/
def untilClosing? (quote : Char) (taken : List Char) : List Char → Option (List Char)
  | [] => none
  | c :: rest =>
    if c = quote ∧ rest.head? = some ']' then some taken.reverse
    else untilClosing? quote (c :: taken) rest

/-- The shortest body, at least one character long, that the quote and a closing bracket follow. -/
def quotedBody? (quote : Char) : List Char → Option (List Char)
  | [] => none
  | c :: rest => untilClosing? quote [c] rest

def styleBodyMatch? (text : List Char) : Option Match :=
  if stylesOpening.isPrefixOf text then
    match text.drop stylesOpening.length with
    | [] => none
    | quote :: rest =>
      if styleQuotes.contains quote then
        (quotedBody? quote rest).map fun body => ⟨body, stylesOpening.length + body.length + 3⟩
      else
        none
  else
    none

def styleBodies (script : String) : List String :=
  (search styleBodyMatch? script.toList).map String.ofList

end SelectorMangling.Extraction
