import SelectorMangling.Pattern.Basic

/-!
# Reading patterns

The notation of patterns: characters, escapes, bracketed classes, anchors, groups with names or
flags, alternatives and repetitions.  Look-around and references to groups are not part of it.

Left out of the notation that the `regex` crate reads are the classes of a Unicode property (`\p` and
`\P`), the flag `x` for patterns with blanks and remarks, and `u` behind a minus, which turns Unicode
off.  A pattern with one of them counts as malformed here.

Readers take a text and give what they read with the rest of the text.  Where they repeat, a
`budget` bounds the repetitions; each one reads at least one character, so that the length of the
text is enough.
-/

namespace SelectorMangling.Pattern

inductive Fault where
  | malformed
  /-- The pattern takes too much room once its repetitions are written out. -/
  | tooLarge
deriving DecidableEq, Repr

def Fault.message : Fault → String
  | .malformed => "malformed pattern"
  | .tooLarge => "pattern is too large"

/-- The switches that flags in a pattern turn on and off. -/
structure Flags where
  anyCase : Bool := false
  /-- The anchors stand for lines instead of the whole text. -/
  lines : Bool := false
  /-- The dot stands for line ends too. -/
  dotAll : Bool := false
  /-- A carriage return ends lines as well, alone or with a newline behind it. -/
  returns : Bool := false

/-- What an escape or a bare character stands for. -/
inductive Atom where
  | char (c : Char)
  | set (set : CharSet)
  | anchor (condition : Anchor)

def hexValue? (c : Char) : Option Nat :=
  if '0' ≤ c && c ≤ '9' then some (c.toNat - '0'.toNat)
  else if 'a' ≤ c && c ≤ 'f' then some (c.toNat - 'a'.toNat + 10)
  else if 'A' ≤ c && c ≤ 'F' then some (c.toNat - 'A'.toNat + 10)
  else none

def hexChar (digits : List Char) : Except Fault Char :=
  match digits.mapM hexValue? with
  | none => .error .malformed
  | some values =>
    let point := values.foldl (fun total value => total * 16 + value) 0
    if !digits.isEmpty && point.isValidChar then .ok (Char.ofNat point) else .error .malformed

/-- Reads a character by its code point: digits in braces, or as many digits as the letter of the
escape asks for. -/
def readHex (count : Nat) : List Char → Except Fault (Atom × List Char)
  | '\x7b' :: rest =>
    let digits := rest.takeWhile fun c => c != '\x7d'
    match rest.drop digits.length with
    | [] => .error .malformed
    | _ :: rest => do return (.char (← hexChar digits), rest)
  | text =>
    if text.length < count then .error .malformed
    else do return (.char (← hexChar (text.take count)), text.drop count)

/-- Reads what follows the escape of a word boundary: its kind in braces, if letters stand in
them. -/
def readBoundaryKind : List Char → Except Fault (Atom × List Char)
  | '\x7b' :: rest =>
    let isKindChar := fun c : Char => c.isAlpha || c == '-'
    let kind := rest.takeWhile isKindChar
    if kind.isEmpty then .ok (.anchor .wordBoundary, '\x7b' :: rest)
    else
      match rest.drop kind.length with
      | '\x7d' :: rest =>
        if kind = "start".toList then .ok (.anchor .wordStart, rest)
        else if kind = "end".toList then .ok (.anchor .wordEnd, rest)
        else if kind = "start-half".toList then .ok (.anchor .wordStartHalf, rest)
        else if kind = "end-half".toList then .ok (.anchor .wordEndHalf, rest)
        else .error .malformed
      | _ => .error .malformed
  | text => .ok (.anchor .wordBoundary, text)

def readEscape : List Char → Except Fault (Atom × List Char)
  | [] => .error .malformed
  | c :: rest =>
    match c with
    | 'x' => readHex 2 rest
    | 'u' => readHex 4 rest
    | 'U' => readHex 8 rest
    | 'd' => .ok (.set .digit, rest)
    | 'D' => .ok (.set (.complement .digit), rest)
    | 's' => .ok (.set .blank, rest)
    | 'S' => .ok (.set (.complement .blank), rest)
    | 'w' => .ok (.set .word, rest)
    | 'W' => .ok (.set (.complement .word), rest)
    | 'a' => .ok (.char '\x07', rest)
    | 'f' => .ok (.char '\x0c', rest)
    | 't' => .ok (.char '\t', rest)
    | 'n' => .ok (.char '\n', rest)
    | 'r' => .ok (.char '\r', rest)
    | 'v' => .ok (.char '\x0b', rest)
    | 'A' => .ok (.anchor .textStart, rest)
    | 'z' => .ok (.anchor .textEnd, rest)
    | 'b' => readBoundaryKind rest
    | 'B' => .ok (.anchor .noWordBoundary, rest)
    | '<' => .ok (.anchor .wordStart, rest)
    | '>' => .ok (.anchor .wordEnd, rest)
    | c => if c.isAlphanum || 0x7f < c.toNat then .error .malformed else .ok (.char c, rest)

inductive SetOperator where
  | inter
  | diff
  | symmDiff

/-- Joins a set with the set and operator before it. -/
def joinSets (anyCase : Bool) (earlier : Option (CharSet × SetOperator)) (set : CharSet) :
    CharSet :=
  let fold := fun set => if anyCase then CharSet.anyCase set else set
  match earlier with
  | none => set
  | some (left, .inter) => .inter (fold left) (fold set)
  | some (left, .diff) => .diff (fold left) (fold set)
  | some (left, .symmDiff) => .symmDiff (fold left) (fold set)

def closeSet (anyCase negated : Bool) (set : CharSet) : CharSet :=
  let folded := if anyCase then CharSet.anyCase set else set
  if negated then .complement folded else folded

def namedClasses : List (String × CharSet) :=
  let range := fun (first last : Char) => CharSet.range first.toNat last.toNat
  let decimal := range '0' '9'
  let upper := range 'A' 'Z'
  let lower := range 'a' 'z'
  let alpha := CharSet.union upper lower
  let alnum := CharSet.union decimal alpha
  let space := CharSet.union (range '\t' '\r') (CharSet.single ' ')
  let graph := range '!' '~'
  [("alnum", alnum), ("alpha", alpha), ("ascii", .range 0 0x7f),
   ("blank", .union (CharSet.single '\t') (CharSet.single ' ')),
   ("cntrl", .union (.range 0 0x1f) (.range 0x7f 0x7f)), ("digit", decimal), ("graph", graph),
   ("lower", lower), ("print", range ' ' '~'), ("punct", CharSet.diff graph alnum),
   ("space", space), ("upper", upper), ("word", .union alnum (CharSet.single '_')),
   ("xdigit", .union decimal (.union (range 'A' 'F') (range 'a' 'f')))]

/-- Reads a named class after its opening bracket; `none` if there is no such class. -/
def readNamedClass? : List Char → Option (CharSet × List Char)
  | ':' :: rest =>
    let negated := rest.head? == some '^'
    let rest := if negated then rest.drop 1 else rest
    let name := rest.takeWhile Char.isAlpha
    match rest.drop name.length with
    | ':' :: ']' :: rest =>
      (namedClasses.lookup (String.ofList name)).map fun set =>
        (if negated then .complement set else set, rest)
    | _ => none
  | _ => none

/-- Reads the start of a bracket: whether it is negated, and the hyphens or the closing bracket that
stand for themselves there. -/
def readBracketStart (text : List Char) : Bool × CharSet × List Char :=
  let negated := text.head? == some '^'
  let text := if negated then text.drop 1 else text
  let hyphens := text.takeWhile (· == '-')
  match hyphens, text.drop hyphens.length with
  | [], ']' :: rest => (negated, CharSet.single ']', rest)
  | [], rest => (negated, .empty, rest)
  | _ :: _, rest => (negated, CharSet.single '-', rest)

def readItem : List Char → Except Fault (Atom × List Char)
  | [] => .error .malformed
  | '\\' :: rest => readEscape rest
  | c :: rest => .ok (.char c, rest)

/-- Reads an item of a bracket or a range between two characters. -/
def readRange (text : List Char) : Except Fault (CharSet × List Char) := do
  let (first, rest) ← readItem text
  let alone : Except Fault (CharSet × List Char) :=
    match first with
    | .char c => .ok (CharSet.single c, rest)
    | .set set => .ok (set, rest)
    | .anchor _ => .error .malformed
  match rest with
  | '-' :: ']' :: _ => alone
  | '-' :: '-' :: _ => alone
  | '-' :: more => do
    let (last, rest) ← readItem more
    match first, last with
    | .char first, .char last =>
      if first ≤ last then .ok (.range first.toNat last.toNat, rest) else .error .malformed
    | _, _ => .error .malformed
  | _ => alone

/-- Reads a bracket after its start: the sets before the last operator, what has been read since,
and the rest up to the closing bracket. -/
def readBracket (anyCase : Bool) :
    (budget : Nat) → (earlier : Option (CharSet × SetOperator)) → (set : CharSet) → List Char →
      Except Fault (CharSet × List Char)
  | 0, _, _, _ => .error .malformed
  | budget + 1, earlier, set, text =>
    let operator := fun (kind : SetOperator) (rest : List Char) =>
      readBracket anyCase budget (some (joinSets anyCase earlier set, kind)) .empty rest
    match text with
    | [] => .error .malformed
    | ']' :: rest => .ok (joinSets anyCase earlier set, rest)
    | '[' :: rest =>
      match readNamedClass? rest with
      | some (named, rest) => readBracket anyCase budget earlier (.union set named) rest
      | none => do
        let (negated, start, rest) := readBracketStart rest
        let (inner, rest) ← readBracket anyCase budget none start rest
        readBracket anyCase budget earlier (.union set (closeSet anyCase negated inner)) rest
    | '&' :: '&' :: rest => operator .inter rest
    | '-' :: '-' :: rest => operator .diff rest
    | '~' :: '~' :: rest => operator .symmDiff rest
    | text => do
      let (item, rest) ← readRange text
      readBracket anyCase budget earlier (.union set item) rest

def readClass (anyCase : Bool) (text : List Char) : Except Fault (CharSet × List Char) := do
  let (negated, start, rest) := readBracketStart text
  let (set, rest) ← readBracket anyCase (text.length + 1) none start rest
  return (closeSet anyCase negated set, rest)

def readCount (text : List Char) : Except Fault (Nat × List Char) :=
  let text := text.dropWhile Unicode.isBlank
  let digits := text.takeWhile Char.isDigit
  let n := digits.foldl (fun total c => total * 10 + (c.toNat - '0'.toNat)) 0
  if digits.isEmpty || UInt32.size ≤ n then .error .malformed
  else .ok (n, (text.drop digits.length).dropWhile Unicode.isBlank)

/-- Reads the bounds of a counted repetition after the opening brace. -/
def readBounds (text : List Char) : Except Fault (Nat × Option Nat × List Char) := do
  let (least, rest) ← readCount text
  match rest with
  | '\x7d' :: rest => .ok (least, some least, rest)
  | ',' :: '\x7d' :: rest => .ok (least, none, rest)
  | ',' :: rest => do
    let (most, rest) ← readCount rest
    match rest with
    | '\x7d' :: rest => if least ≤ most then .ok (least, some most, rest) else .error .malformed
    | _ => .error .malformed
  | _ => .error .malformed

/-- A text without the question mark that makes a repetition lazy. -/
def skipLazyMark : List Char → List Char
  | '?' :: rest => rest
  | text => text

/-- What the letters of a flag group ask for: each letter once, at most one minus, and a letter
behind it. -/
def readFlags (flags : Flags) (negated : Bool) (seen : List Char) :
    List Char → Except Fault (Flags × List Char)
  | [] => .error .malformed
  | c :: rest =>
    if c = ':' ∨ c = ')' then
      if seen.head? = some '-' then .error .malformed else .ok (flags, c :: rest)
    else if seen.contains c then .error .malformed
    else
      match c with
      | '-' => readFlags flags true (c :: seen) rest
      | 'i' => readFlags { flags with anyCase := !negated } negated (c :: seen) rest
      | 'm' => readFlags { flags with lines := !negated } negated (c :: seen) rest
      | 's' => readFlags { flags with dotAll := !negated } negated (c :: seen) rest
      | 'R' => readFlags { flags with returns := !negated } negated (c :: seen) rest
      | 'U' => readFlags flags negated (c :: seen) rest
      | 'u' => if negated then .error .malformed else readFlags flags negated (c :: seen) rest
      | _ => .error .malformed

def isNameChar (first : Bool) (c : Char) : Bool :=
  if first then c == '_' || (Unicode.isWordChar c && !Unicode.isDecimalDigit c)
  else Unicode.isWordChar c || c == '.' || c == '[' || c == ']'

/-- Reads the name of a group up to its closing angle bracket. -/
def readGroupName (text : List Char) : Except Fault (String × List Char) :=
  let name := text.takeWhile (· != '>')
  match name, text.drop name.length with
  | first :: others, _ :: rest =>
    if isNameChar true first && others.all (isNameChar false) then
      .ok (String.ofList name, rest)
    else .error .malformed
  | _, _ => .error .malformed

inductive Opening where
  | capture (name : Option String)
  | plain (flags : Flags)
  /-- Flags for the rest of the group that the parenthesis stands in. -/
  | flags (flags : Flags)

def readOpening (flags : Flags) (text : List Char) : Except Fault (Opening × List Char) :=
  match text with
  | '?' :: 'P' :: '<' :: rest => do
    let (name, rest) ← readGroupName rest
    return (.capture (some name), rest)
  | '?' :: '<' :: rest =>
    if rest.head? = some '=' ∨ rest.head? = some '!' then .error .malformed
    else do
      let (name, rest) ← readGroupName rest
      return (.capture (some name), rest)
  | '?' :: rest => do
    let (inner, after) ← readFlags flags false [] rest
    match after with
    | ':' :: rest => return (.plain inner, rest)
    | ')' :: final => if rest.head? = some ')' then .error .malformed else .ok (.flags inner, final)
    | _ => .error .malformed
  | text => .ok (.capture none, text)

/-- The parts of a group that have been read: the alternatives before the last bar, and the items
since then, last one first.  A setting of flags is an item without a pattern. -/
structure Parts where
  earlier : Option Pattern := none
  items : List (Option Pattern) := []

namespace Parts

/-- The items since the last bar in a row. -/
def row (parts : Parts) : Pattern :=
  parts.items.foldl
    (fun pattern item =>
      match item with
      | none => pattern
      | some item => .seq item pattern)
    .empty

def close (parts : Parts) : Pattern :=
  match parts.earlier with
  | none => parts.row
  | some earlier => .alt earlier parts.row

def split (parts : Parts) : Parts := { earlier := some parts.close }

def push (parts : Parts) (item : Option Pattern) : Parts :=
  { parts with items := item :: parts.items }

/-- Repeats the last item, if there is one. -/
def repeatLast (parts : Parts) (least : Nat) (most : Option Nat) : Except Fault Parts :=
  match parts.items with
  | some item :: rest => .ok { parts with items := some (.times item least most) :: rest }
  | _ => .error .malformed

end Parts

def ofAtom (flags : Flags) : Atom → Pattern
  | .char c => .char (CharSet.ofChar flags.anyCase c)
  | .set set => .char set
  | .anchor condition => .anchor condition

def dot (flags : Flags) : Pattern :=
  let lineEnds :=
    if flags.dotAll then .empty
    else if flags.returns then .union (CharSet.single '\n') (CharSet.single '\r')
    else CharSet.single '\n'
  .char (.complement lineEnds)

/-- What stands for the caret: the start of the text or of a line. -/
def Flags.lineStart (flags : Flags) : Anchor :=
  if !flags.lines then .textStart else if flags.returns then .returnedLineStart else .lineStart

/-- What stands for the dollar sign: the end of the text or of a line. -/
def Flags.lineEnd (flags : Flags) : Anchor :=
  if !flags.lines then .textEnd else if flags.returns then .returnedLineEnd else .lineEnd

/-- Reads a group up to its closing parenthesis or to the end of the text, which is left. -/
def readGroup : (budget : Nat) → Flags → Parts → List Char → Except Fault (Pattern × List Char)
  | 0, _, _, _ => .error .malformed
  | budget + 1, flags, parts, text =>
    let repeated := fun (least : Nat) (most : Option Nat) (rest : List Char) => do
      let parts ← parts.repeatLast least most
      readGroup budget flags parts (skipLazyMark rest)
    match text with
    | [] => .ok (parts.close, [])
    | ')' :: _ => .ok (parts.close, text)
    | '|' :: rest => readGroup budget flags parts.split rest
    | '(' :: rest => do
      let (opening, rest) ← readOpening flags rest
      match opening with
      | .flags flags => readGroup budget flags (parts.push none) rest
      | .plain inner => do
        let (item, rest) ← readGroup budget inner {} rest
        match rest with
        | [] => .error .malformed
        | _ :: rest => readGroup budget flags (parts.push (some item)) rest
      | .capture name => do
        let (item, rest) ← readGroup budget flags {} rest
        match rest with
        | [] => .error .malformed
        | _ :: rest => readGroup budget flags (parts.push (some (.group name item))) rest
    | '[' :: rest => do
      let (set, rest) ← readClass flags.anyCase rest
      readGroup budget flags (parts.push (some (.char set))) rest
    | '?' :: rest => repeated 0 (some 1) rest
    | '*' :: rest => repeated 0 none rest
    | '+' :: rest => repeated 1 none rest
    | '\x7b' :: rest => do
      let (least, most, rest) ← readBounds rest
      repeated least most rest
    | '\\' :: rest => do
      let (atom, rest) ← readEscape rest
      readGroup budget flags (parts.push (some (ofAtom flags atom))) rest
    | '.' :: rest => readGroup budget flags (parts.push (some (dot flags))) rest
    | '^' :: rest => readGroup budget flags (parts.push (some (.anchor flags.lineStart))) rest
    | '$' :: rest => readGroup budget flags (parts.push (some (.anchor flags.lineEnd))) rest
    | c :: rest => readGroup budget flags (parts.push (some (ofAtom flags (.char c)))) rest

/-- The room for a pattern: the `regex` crate refuses one whose compiled form has more than 10 MiB,
counted here as states of 32 bytes. -/
def largestWeight : Nat := 10 * 1024 * 1024 / 32

def parse (text : String) : Except Fault Pattern := do
  let (pattern, rest) ← readGroup (text.length + 1) {} {} text.toList
  if !rest.isEmpty then .error .malformed
  else if ¬ pattern.groupNames.Nodup then .error .malformed
  else if largestWeight < pattern.weight then .error .tooLarge
  else return pattern

end SelectorMangling.Pattern
