import SelectorMangling.Toml.Moment
import SelectorMangling.Toml.Number
import SelectorMangling.Toml.Table
import SelectorMangling.Toml.Text

/-!
# Reading TOML

Reads a whole document into the members of its root table, in the order in which their keys came.
Nesting is bounded: by so many arrays and inline tables inside each other, and by so many parts of
a dotted key.

Readers take a text and give what they read with the rest of the text.  Where they repeat, a
`budget` bounds the repetitions; each one reads at least one character.
-/

namespace SelectorMangling.Toml

/-- How deep arrays and inline tables may nest, and how many parts a dotted key may have. -/
def largestDepth : Nat := 79

def isKeyChar (c : Char) : Bool := c.isAlphanum || c == '-' || c == '_'

def readKeyPart? (text : List Char) : Option (String × List Char) :=
  match text with
  | [] => none
  | c :: _ =>
    if c = '"' ∨ c = '\x27' then readShortText? text
    else
      let part := text.takeWhile isKeyChar
      if part.isEmpty then none else some (String.ofList part, text.drop part.length)

/-- Reads a key of parts with dots between them, and the blanks around it. -/
def readKeyParts? : (budget : Nat) → List Char → Option (List String × List Char)
  | 0, _ => none
  | budget + 1, text => do
    let (part, rest) ← readKeyPart? (text.dropWhile isBlank)
    match rest.dropWhile isBlank with
    | '.' :: rest => do
      let (parts, rest) ← readKeyParts? budget rest
      return (part :: parts, rest)
    | rest => return ([part], rest)

/-- Reads a key, as the path to its last part and that part. -/
def readKey? (text : List Char) : Option (List String × String × List Char) := do
  let (parts, rest) ← readKeyParts? (text.length + 1) text
  if largestDepth < parts.length then none
  else do
    let key ← parts.getLast?
    return (parts.dropLast, key, rest)

/-- Skips a comment up to the end of its line; `none` if it holds a control. -/
def skipComment? (text : List Char) : Option (List Char) :=
  let rest := text.dropWhile isPlain
  match rest with
  | [] => some []
  | rest => (afterLineEnd? rest).map fun _ => rest

def skipGaps? : (budget : Nat) → List Char → Option (List Char)
  | 0, _ => none
  | budget + 1, text =>
    match text.dropWhile isBlank with
    | [] => some []
    | '#' :: rest => do skipGaps? budget (← skipComment? rest)
    | '\r' :: rest => do skipGaps? budget (← afterLineEnd? ('\r' :: rest))
    | '\n' :: rest => skipGaps? budget rest
    | rest => some rest

/-- Reads the items of an array after its opening bracket or a comma. -/
def readItems? (readValue? : List Char → Option (Value × List Char)) :
    (budget : Nat) → List Char → Option (List Value × List Char)
  | 0, _ => none
  | budget + 1, text => do
    match ← skipGaps? (text.length + 1) text with
    | ']' :: rest => return ([], rest)
    | text => do
      let (item, rest) ← readValue? text
      match ← skipGaps? (rest.length + 1) rest with
      | ',' :: rest => do
        let (items, rest) ← readItems? readValue? budget rest
        return (item :: items, rest)
      | ']' :: rest => return ([item], rest)
      | _ => none

def readPairs? (readValue? : List Char → Option (Value × List Char)) :
    (budget : Nat) → Members → List Char → Option (Members × List Char)
  | 0, _, _ => none
  | budget + 1, members, text => do
    let (path, key, rest) ← readKey? text
    let rest ← after? '=' rest
    let (value, rest) ← readValue? (rest.dropWhile isBlank)
    let members ← insert? path key value members
    match rest.dropWhile isBlank with
    | ',' :: rest => readPairs? readValue? budget members rest
    | '\x7d' :: rest => return (members, rest)
    | _ => none

/-- Reads a value in which arrays and inline tables nest up to a depth. -/
def readValue? : (depth : Nat) → List Char → Option (Value × List Char)
  | depth, text =>
    match text with
    | [] => none
    | 't' :: 'r' :: 'u' :: 'e' :: rest => some (.boolean true, rest)
    | 'f' :: 'a' :: 'l' :: 's' :: 'e' :: rest => some (.boolean false, rest)
    | '[' :: rest =>
      match depth with
      | 0 => none
      | inner + 1 =>
        (readItems? (readValue? inner) (rest.length + 1) rest).map fun (items, rest) =>
          (.array items, rest)
    | '\x7b' :: rest =>
      match depth with
      | 0 => none
      | inner + 1 =>
        match rest.dropWhile isBlank with
        | '\x7d' :: rest => some (.map, rest)
        | rest =>
          (readPairs? (readValue? inner) (rest.length + 1) [] rest).map fun (_, rest) =>
            (.map, rest)
    | c :: _ =>
      if c = '"' ∨ c = '\x27' then (readText? text).map fun (content, rest) => (.text content, rest)
      else
        match skipMoment? text with
        | some rest => some (.map, rest)
        | none => readNumber? text

/-- Skips the rest of a line: blanks, and a comment. -/
def skipLineRest? (text : List Char) : Option (List Char) :=
  match text.dropWhile isBlank with
  | [] => some []
  | '#' :: rest => skipComment? rest
  | rest => (afterLineEnd? rest).map fun _ => rest

def readHeader? (draft : Draft) (text : List Char) : Option (Draft × List Char) :=
  match text with
  | '[' :: rest => do
    let (path, key, rest) ← readKey? rest
    let rest ← after? ']' (← after? ']' rest)
    return (← draft.openRow? (path ++ [key]), rest)
  | text => do
    let (path, key, rest) ← readKey? text
    let rest ← after? ']' rest
    return (← draft.openTable? (path ++ [key]), rest)

def readPair? (draft : Draft) (text : List Char) : Option (Draft × List Char) := do
  let (path, key, rest) ← readKey? text
  let rest ← after? '=' rest
  let (value, rest) ← readValue? largestDepth (rest.dropWhile isBlank)
  return (← draft.insert? path key value, rest)

def readLinesOf? : (budget : Nat) → Draft → List Char → Option Draft
  | 0, _, _ => none
  | budget + 1, draft, text => do
    match ← skipGaps? (text.length + 1) text with
    | [] => return draft
    | '[' :: rest => do
      let (draft, rest) ← readHeader? draft rest
      readLinesOf? budget draft (← skipLineRest? rest)
    | text => do
      let (draft, rest) ← readPair? draft text
      readLinesOf? budget draft (← skipLineRest? rest)

/-- The root members of a document, in the order of their keys.  A byte order mark at the front does
not count. -/
def parse? (text : String) : Option (List (String × Value)) := do
  let chars :=
    match text.toList with
    | '\ufeff' :: rest => rest
    | chars => chars
  let draft ← readLinesOf? (chars.length + 1) {} chars
  let members ← draft.close?
  return members.map fun member => (member.1, member.2.toValue)

end SelectorMangling.Toml
