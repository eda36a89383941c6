/-!
# Dates and times

Dates of the calendar, times of the day, and both together with or without an offset.  Settings
have no use for them, so that reading one only finds its end.
-/

namespace SelectorMangling.Toml

/-- Reads a number of exactly so many decimal digits. -/
def readFixed? (count : Nat) (text : List Char) : Option (Nat × List Char) :=
  let digits := text.take count
  if digits.length = count ∧ digits.all Char.isDigit then
    some (digits.foldl (fun total c => total * 10 + (c.toNat - '0'.toNat)) 0, text.drop count)
  else none

/-- Reads a number of two digits between bounds. -/
def readPart? (least most : Nat) (text : List Char) : Option (Nat × List Char) := do
  let (n, rest) ← readFixed? 2 text
  if least ≤ n ∧ n ≤ most then return (n, rest) else none

/-- The text behind a separator at its front. -/
def after? (separator : Char) : List Char → Option (List Char)
  | c :: rest => if c = separator then some rest else none
  | [] => none

def daysOfMonth (year month : Nat) : Nat :=
  if month = 2 then
    if year % 4 = 0 ∧ (year % 100 ≠ 0 ∨ year % 400 = 0) then 29 else 28
  else if month ∈ [4, 6, 9, 11] then 30
  else 31

def skipDate? (text : List Char) : Option (List Char) := do
  let (year, rest) ← readFixed? 4 text
  let (month, rest) ← readPart? 1 12 (← after? '-' rest)
  let (_, rest) ← readPart? 1 (daysOfMonth year month) (← after? '-' rest)
  return rest

def skipTime? (text : List Char) : Option (List Char) := do
  let (_, rest) ← readPart? 0 23 text
  let (_, rest) ← readPart? 0 59 (← after? ':' rest)
  let (_, rest) ← readPart? 0 60 (← after? ':' rest)
  match rest with
  | '.' :: fraction =>
    let digits := fraction.takeWhile Char.isDigit
    return if digits.isEmpty then rest else fraction.drop digits.length
  | rest => return rest

/-- Skips an offset from universal time, if there is one. -/
def skipOffset? : List Char → Option (List Char)
  | 'Z' :: rest => some rest
  | 'z' :: rest => some rest
  | sign :: rest =>
    if sign = '+' ∨ sign = '-' then do
      let (_, rest) ← readPart? 0 23 rest
      let (_, rest) ← readPart? 0 59 (← after? ':' rest)
      return rest
    else some (sign :: rest)
  | [] => some []

/-- Skips a date, a time, or both. -/
def skipMoment? (text : List Char) : Option (List Char) :=
  match skipDate? text with
  | none => skipTime? text
  | some rest =>
    match rest with
    | c :: after =>
      if c = 'T' ∨ c = 't' ∨ c = ' ' then
        match skipTime? after with
        | some rest => skipOffset? rest
        | none => some rest
      else some rest
    | [] => some []

end SelectorMangling.Toml
