import SelectorMangling.Json.Basic
import SelectorMangling.Json.Number
import SelectorMangling.Json.Text

/-!
# Reading JSON

Reads the members of one object.  Arrays and objects inside it may nest to a bounded depth; they
are checked and otherwise count as `Value.other`.

Every reader takes a text and gives what it read with the rest of the text.  The readers of arrays
and objects repeat as often as there are characters at most, which is what their `budget` is for:
every element takes at least one character.
-/

namespace SelectorMangling.Json

def isBlank (c : Char) : Bool := c == ' ' || c == '\t' || c == '\n' || c == '\r'

def skipBlanks (text : List Char) : List Char := text.dropWhile isBlank

def readLetters : List Char → List Char → Except Fault (List Char)
  | [], rest => .ok rest
  | _ :: _, [] => .error .incomplete
  | letter :: letters, c :: rest =>
    if c = letter then readLetters letters rest else .error .malformed

/-- Reads a literal after its first letter. -/
def readLiteral (letters rest : List Char) : Except Fault (Value × List Char) :=
  (readLetters letters rest).map (Value.other, ·)

/-- Reads a number after its sign.  A negative number is no whole number without sign. -/
def readNumber (negative : Bool) (text : List Char) : Except Fault (Value × List Char) := do
  let (whole, rest) ← readDigits text
  match whole with
  | some n => return (if negative then .other else .natural n, rest)
  | none => return (.other, rest)

/-- Reads the elements of an array after its opening bracket or after an element. -/
def readElements (readItem : List Char → Except Fault (Value × List Char)) :
    (budget : Nat) → (first : Bool) → List Char → Except Fault (List Char)
  | 0, _, _ => .error .incomplete
  | budget + 1, first, text =>
    match skipBlanks text with
    | [] => .error .incomplete
    | ']' :: rest => .ok rest
    | c :: rest =>
      if first then do
        let (_, rest) ← readItem (c :: rest)
        readElements readItem budget false rest
      else if c = ',' then
        match skipBlanks rest with
        | [] => .error .incomplete
        | ']' :: _ => .error .malformed
        | more => do
          let (_, rest) ← readItem more
          readElements readItem budget false rest
      else .error .malformed

/-- Reads one member of an object: a string, a colon and a value. -/
def readMember (readItem : List Char → Except Fault (Value × List Char)) (text : List Char) :
    Except Fault ((String × Value) × List Char) :=
  match text with
  | [] => .error .incomplete
  | '"' :: rest => do
    let (name, rest) ← readText rest
    match skipBlanks rest with
    | [] => .error .incomplete
    | ':' :: rest => do
      let (value, rest) ← readItem rest
      return ((name, value), rest)
    | _ => .error .malformed
  | _ => .error .malformed

def readMembers (readItem : List Char → Except Fault (Value × List Char)) :
    (budget : Nat) → (first : Bool) → List Char →
      Except Fault (List (String × Value) × List Char)
  | 0, _, _ => .error .incomplete
  | budget + 1, first, text =>
    match skipBlanks text with
    | [] => .error .incomplete
    | '\x7d' :: rest => .ok ([], rest)
    | c :: rest =>
      if first then do
        let (member, rest) ← readMember readItem (c :: rest)
        let (members, rest) ← readMembers readItem budget false rest
        return (member :: members, rest)
      else if c = ',' then do
        let (member, rest) ← readMember readItem (skipBlanks rest)
        let (members, rest) ← readMembers readItem budget false rest
        return (member :: members, rest)
      else .error .malformed

/-- Reads a value in which arrays and objects nest up to a given depth. -/
def readValue : (depth : Nat) → List Char → Except Fault (Value × List Char)
  | depth, text =>
    match skipBlanks text with
    | [] => .error .incomplete
    | 'n' :: rest => readLiteral ['u', 'l', 'l'] rest
    | 't' :: rest => readLiteral ['r', 'u', 'e'] rest
    | 'f' :: rest => readLiteral ['a', 'l', 's', 'e'] rest
    | '"' :: rest => (readText rest).map fun (content, rest) => (.text content, rest)
    | '-' :: rest => readNumber true rest
    | '[' :: rest =>
      match depth with
      | 0 => .error .malformed
      | inner + 1 =>
        (readElements (readValue inner) (rest.length + 1) true rest).map (Value.other, ·)
    | '\x7b' :: rest =>
      match depth with
      | 0 => .error .malformed
      | inner + 1 =>
        (readMembers (readValue inner) (rest.length + 1) true rest).map (Value.other, ·.2)
    | c :: rest => if isDigit c then readNumber false (c :: rest) else .error .malformed

/-- How deep arrays and objects may nest inside an object. -/
def innerDepth : Nat := 126

/-- Reads the members of the object at the front of a text.  Of a value of another kind its first
token is read before it is refused. -/
def readObject (text : List Char) : Except Fault (List (String × Value) × List Char) :=
  match skipBlanks text with
  | [] => .error .incomplete
  | '\x7b' :: rest => readMembers (readValue innerDepth) (rest.length + 1) true rest
  | '[' :: _ => .error .notObject
  | other => do
    let _ ← readValue 0 other
    .error .notObject

/-- Checks that nothing but blanks is left of a text. -/
def readEnd (text : List Char) : Except Fault Unit :=
  if (skipBlanks text).isEmpty then .ok () else .error .malformed

end SelectorMangling.Json
