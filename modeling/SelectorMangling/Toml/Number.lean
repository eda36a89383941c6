import SelectorMangling.Toml.Value

/-!
# TOML numbers

Whole numbers of 64 bits in four bases, and floating-point numbers.  Underscores may stand between
digits.  A decimal number has no leading zero, and a floating-point number that is positive and too
large is refused.
-/

namespace SelectorMangling.Toml

open Decimal

def digitValue? (base : Nat) (c : Char) : Option Nat :=
  let value? :=
    if '0' ≤ c && c ≤ '9' then some (c.toNat - '0'.toNat)
    else if 'a' ≤ c && c ≤ 'f' then some (c.toNat - 'a'.toNat + 10)
    else if 'A' ≤ c && c ≤ 'F' then some (c.toNat - 'A'.toNat + 10)
    else none
  value?.filter (· < base)

/-- The values of digits with single underscores between them. -/
def digitValues? (base : Nat) : List Char → Option (List Nat)
  | [] => none
  | [c] => (digitValue? base c).map ([·])
  | c :: '_' :: rest => do return (← digitValue? base c) :: (← digitValues? base rest)
  | c :: rest => do return (← digitValue? base c) :: (← digitValues? base rest)

/-- Reads the digits and underscores at the front of a text. -/
def readDigits? (base : Nat) (text : List Char) : Option (List Nat × List Char) := do
  let run := text.takeWhile fun c => c == '_' || (digitValue? base c).isSome
  let values ← digitValues? base run
  return (values, text.drop run.length)

def ofDigits (base : Nat) (values : List Nat) : Nat :=
  values.foldl (fun total value => total * base + value) 0

/-- A whole number, if it fits 64 bits. -/
def integer? (negative : Bool) (n : Nat) : Option Value :=
  let bound := UInt64.size / 2
  if negative then if n ≤ bound then some (.integer (-n)) else none
  else if n < bound then some (.integer n) else none

/-- A floating-point number, unless it is positive and too large. -/
def float? (negative : Bool) (digits : Nat) (power : Int) : Option Value :=
  match Float64.ofDecimal negative digits power with
  | .infinite false => none
  | number => some (.float number)

/-- Reads the exponent at the front of a text, if there is one. -/
def readExponent? (text : List Char) : Option (Int × List Char) :=
  let readPower? := fun (rest : List Char) =>
    match rest with
    | '-' :: rest => (readDigits? 10 rest).map fun (values, rest) => (-(ofDigits 10 values : Int), rest)
    | '+' :: rest => (readDigits? 10 rest).map fun (values, rest) => ((ofDigits 10 values : Int), rest)
    | rest => (readDigits? 10 rest).map fun (values, rest) => ((ofDigits 10 values : Int), rest)
  match text with
  | 'e' :: rest => readPower? rest
  | 'E' :: rest => readPower? rest
  | text => some (0, text)

/-- Reads a decimal number after its sign. -/
def readDecimal? (negative : Bool) (text : List Char) : Option (Value × List Char) := do
  let (whole, rest) ← readDigits? 10 text
  if 1 < whole.length ∧ whole.head? = some 0 then none
  else
    match rest with
    | '.' :: rest => do
      let (fraction, rest) ← readDigits? 10 rest
      let (power, rest) ← readExponent? rest
      let number ← float? negative (ofDigits 10 (whole ++ fraction)) (power - fraction.length)
      return (number, rest)
    | next :: _ =>
      if next = 'e' ∨ next = 'E' then do
        let (power, rest) ← readExponent? rest
        let number ← float? negative (ofDigits 10 whole) power
        return (number, rest)
      else do return (← integer? negative (ofDigits 10 whole), rest)
    | [] => do return (← integer? negative (ofDigits 10 whole), [])

def readInBase? (base : Nat) (text : List Char) : Option (Value × List Char) := do
  let (values, rest) ← readDigits? base text
  return (← integer? false (ofDigits base values), rest)

/-- Reads a number after its sign, if it is infinite, not a number, or decimal. -/
def readSigned? (negative : Bool) : List Char → Option (Value × List Char)
  | 'i' :: 'n' :: 'f' :: rest => some (.float (.infinite negative), rest)
  | 'n' :: 'a' :: 'n' :: rest => some (.float .notANumber, rest)
  | text => readDecimal? negative text

def readNumber? : List Char → Option (Value × List Char)
  | '-' :: rest => readSigned? true rest
  | '+' :: rest => readSigned? false rest
  | '0' :: 'x' :: rest => readInBase? 16 rest
  | '0' :: 'o' :: rest => readInBase? 8 rest
  | '0' :: 'b' :: rest => readInBase? 2 rest
  | text => readSigned? false text

end SelectorMangling.Toml
