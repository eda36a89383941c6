import SelectorMangling.Decimal.Binary64
import SelectorMangling.Json.Basic

/-!
# JSON numbers

A number without sign, fraction or exponent that fits 64 bits is read exactly.  Of every other
number only its being in range matters: it is rejected if it is too large for a binary
floating-point value.  Digits that do not fit 64 bits any more are counted and otherwise ignored.
-/

namespace SelectorMangling.Json

open Decimal

def largestWord : Nat := UInt64.size - 1

def isDigit (c : Char) : Bool := '0' ≤ c && c ≤ '9'

def digitValue (c : Char) : Nat := c.toNat - '0'.toNat

/-- Appends digits to a number while it fits 64 bits, with how many were appended. -/
def absorb (n : Nat) : List Char → Nat × Nat
  | [] => (n, 0)
  | c :: rest =>
    let larger := n * 10 + digitValue c
    if larger ≤ largestWord then
      let (total, count) := absorb larger rest
      (total, count + 1)
    else
      (n, 0)

/-- Whether `n * 10 ^ power`, both factors rounded, is too large for a floating-point value. -/
def isOutOfRange (n : Nat) (power : Int) : Bool :=
  if power < 0 || n == 0 then false
  else if power > 308 then true
  else
    Nat.pow 2 1024 - Nat.pow 2 970 ≤
      Binary64.roundNat n * Binary64.roundNat (Nat.pow 10 power.toNat)

/-- Reads the exponent of a number, after its letter, and settles the number. -/
def readExponent (n : Nat) (power : Int) (text : List Char) : Except Fault (List Char) :=
  let (negative, text) :=
    match text with
    | '+' :: rest => (false, rest)
    | '-' :: rest => (true, rest)
    | _ => (false, text)
  let digits := text.takeWhile isDigit
  let rest := text.drop digits.length
  if text.isEmpty then .error .incomplete
  else if digits.isEmpty then .error .malformed
  else
    let exponent : Int := digits.foldl (fun total c => total * 10 + digitValue c) 0
    let power := if negative then power - exponent else power + exponent
    if isOutOfRange n power then .error .malformed else .ok rest

def readScale (n : Nat) (power : Int) : List Char → Except Fault (List Char)
  | 'e' :: rest => readExponent n power rest
  | 'E' :: rest => readExponent n power rest
  | rest => if isOutOfRange n power then .error .malformed else .ok rest

/-- Reads a number after its sign: its value if it is a whole number of 64 bits without fraction
and exponent, and what follows it. -/
def readDigits (text : List Char) : Except Fault (Option Nat × List Char) :=
  let whole := text.takeWhile isDigit
  let rest := text.drop whole.length
  if text.isEmpty then .error .incomplete
  else if whole.isEmpty || (whole.length > 1 && whole.head? == some '0') then .error .malformed
  else
    let (n, absorbed) := absorb 0 whole
    let power : Int := (whole.length : Int) - absorbed
    match rest with
    | '.' :: after =>
      let fraction := after.takeWhile isDigit
      let (n, absorbed) := absorb n fraction
      if after.isEmpty then .error .incomplete
      else if fraction.isEmpty then .error .malformed
      else (readScale n (power - absorbed) (after.drop fraction.length)).map (none, ·)
    | 'e' :: _ => (readScale n power rest).map (none, ·)
    | 'E' :: _ => (readScale n power rest).map (none, ·)
    | _ =>
      if power = 0 then .ok (some n, rest)
      else (readScale n power rest).map (none, ·)

end SelectorMangling.Json
