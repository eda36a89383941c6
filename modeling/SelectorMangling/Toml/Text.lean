/-!
# TOML strings

Strings are quoted by one or by three marks.  Between double quotation marks a backslash begins an
escape; between apostrophes every character stands for itself.  Strings between three marks may
reach over lines; a line end right behind the opening marks does not count, and up to two marks of
the same kind may stand inside and before the closing ones.
-/

namespace SelectorMangling.Toml

/-- Whether a character may stand in a comment or between quotation marks: the tab, and what is no
control. -/
def isPlain (c : Char) : Bool := c == '\t' || (0x20 ≤ c.toNat && c.toNat != 0x7f)

/-- The text behind a line end at its front. -/
def afterLineEnd? : List Char → Option (List Char)
  | '\n' :: rest => some rest
  | '\r' :: '\n' :: rest => some rest
  | _ => none

def isBlank (c : Char) : Bool := c == ' ' || c == '\t'

def hexValue? (c : Char) : Option Nat :=
  if '0' ≤ c && c ≤ '9' then some (c.toNat - '0'.toNat)
  else if 'a' ≤ c && c ≤ 'f' then some (c.toNat - 'a'.toNat + 10)
  else if 'A' ≤ c && c ≤ 'F' then some (c.toNat - 'A'.toNat + 10)
  else none

/-- Reads the character with a code point of so many hexadecimal digits. -/
def readPoint? (count : Nat) (text : List Char) : Option (Char × List Char) := do
  let values ← (text.take count).mapM hexValue?
  let point := values.foldl (fun total value => total * 16 + value) 0
  if values.length = count ∧ point.isValidChar then
    return (Char.ofNat point, text.drop count)
  else
    none

def readEscape? : List Char → Option (Char × List Char)
  | 'b' :: rest => some ('\x08', rest)
  | 't' :: rest => some ('\t', rest)
  | 'n' :: rest => some ('\n', rest)
  | 'f' :: rest => some ('\x0c', rest)
  | 'r' :: rest => some ('\r', rest)
  | '"' :: rest => some ('"', rest)
  | '\\' :: rest => some ('\\', rest)
  | 'u' :: rest => readPoint? 4 rest
  | 'U' :: rest => readPoint? 8 rest
  | _ => none

/-- Skips blanks and line ends; `none` if a carriage return stands alone among them. -/
def skipLines? : List Char → Option (List Char)
  | '\r' :: '\n' :: rest => skipLines? rest
  | '\r' :: _ => none
  | c :: rest => if c = '\n' ∨ isBlank c then skipLines? rest else some (c :: rest)
  | [] => some []

/-- What a backslash at the end of a line skips: blanks up to the line end, then blanks and line
ends up to the next character. -/
def skipLineJoin? (text : List Char) : Option (List Char) := do
  let rest ← afterLineEnd? (text.dropWhile isBlank)
  skipLines? rest

/-- Reads a string on one line after its opening mark, with the characters read so far, last one
first.  Each turn reads at least one character, so that the length of the text is budget
enough. -/
def readLine? (mark : Char) : (budget : Nat) → (taken : List Char) → List Char →
    Option (List Char × List Char)
  | 0, _, _ => none
  | _ + 1, _, [] => none
  | budget + 1, taken, c :: rest =>
    if c = mark then some (taken.reverse, rest)
    else if c = '\\' ∧ mark = '"' then do
      let (escaped, rest) ← readEscape? rest
      readLine? mark budget (escaped :: taken) rest
    else if isPlain c then readLine? mark budget (c :: taken) rest
    else none

/-- Reads a string over several lines after its opening marks, with the characters read so far,
last one first. -/
def readLines? (mark : Char) : (budget : Nat) → (taken : List Char) → List Char →
    Option (List Char × List Char)
  | 0, _, _ => none
  | _ + 1, _, [] => none
  | budget + 1, taken, c :: rest =>
    if c = mark then
      let marks := 1 + (rest.takeWhile (· == mark)).length
      if marks < 3 then readLines? mark budget (c :: taken) rest
      else
        let inner := min (marks - 3) 2
        some ((List.replicate inner mark ++ taken).reverse, rest.drop (inner + 2))
    else if c = '\\' ∧ mark = '"' then
      match skipLineJoin? rest with
      | some joined => readLines? mark budget taken joined
      | none => do
        let (escaped, rest) ← readEscape? rest
        readLines? mark budget (escaped :: taken) rest
    else
      match afterLineEnd? (c :: rest) with
      | some rest => readLines? mark budget ('\n' :: taken) rest
      | none => if isPlain c then readLines? mark budget (c :: taken) rest else none

def readShortText? : List Char → Option (String × List Char)
  | mark :: rest =>
    if mark = '"' ∨ mark = '\x27' then
      (readLine? mark (rest.length + 1) [] rest).map fun (chars, rest) =>
        (String.ofList chars, rest)
    else none
  | [] => none

def readText? (text : List Char) : Option (String × List Char) :=
  match text with
  | a :: b :: c :: rest =>
    if (a = '"' ∨ a = '\x27') ∧ b = a ∧ c = a then
      let body := (afterLineEnd? rest).getD rest
      (readLines? a (body.length + 1) [] body).map fun (chars, rest) =>
        (String.ofList chars, rest)
    else readShortText? text
  | text => readShortText? text

end SelectorMangling.Toml
