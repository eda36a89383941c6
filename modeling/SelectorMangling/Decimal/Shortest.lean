import SelectorMangling.Decimal.Binary64

/-!
# Shortest numerals

The numeral of a floating-point value has the fewest digits that still read back as the value, and
of the numerals with so many digits the nearest.  It is written in positional notation, with at
least one digit behind the point.
-/

namespace SelectorMangling.Decimal

/-- A numeral `digits * 10 ^ power`. -/
structure Numeral where
  digits : Nat
  power : Int
deriving DecidableEq, Repr

namespace Binary64

/-- The least number of digits before the point, counted negative for zeros behind it, such that
the value is below that power of ten. -/
def magnitude (value : Binary64) : Int :=
  let whole := value.numerator / value.denominator
  if 0 < whole then (Nat.toDigits 10 whole).length
  else
    let isReached := fun (zeros : Nat) =>
      decide (value.denominator ≤ value.numerator * Nat.pow 10 (zeros + 1))
    let zeros := ((List.range 400).find? isReached).getD 0
    (-zeros : Int)

/-- The numeral with steps of a power of ten that is nearest to the value among those that read
back as the value.  Quarters of the last binary digit mark the ends of what reads back. -/
def numeralAt? (value : Binary64) (power : Int) : Option Numeral :=
  let quarter := value.exponent - 2
  let up := Nat.pow 2 quarter.toNat * Nat.pow 10 (-power).toNat
  let down := Nat.pow 2 (-quarter).toNat * Nat.pow 10 power.toNat
  let isLeast :=
    value.significand == Nat.pow 2 (significandBits - 1) && leastExponent < value.exponent
  let middle := 4 * value.significand * up
  let low := (4 * value.significand - if isLeast then 1 else 2) * up
  let high := (4 * value.significand + 2) * up
  let reads := fun (digits : Nat) =>
    let point := digits * down
    if value.significand % 2 = 0 then low ≤ point && point ≤ high
    else low < point && point < high
  let below := middle / down
  let above := below + 1
  match reads below, reads above with
  | true, true =>
    if middle - below * down ≤ above * down - middle then some ⟨below, power⟩
    else some ⟨above, power⟩
  | true, false => some ⟨below, power⟩
  | false, true => some ⟨above, power⟩
  | false, false => none

/-- The shortest numeral of a value that is not zero; seventeen digits always read back. -/
def shortest (value : Binary64) : Numeral :=
  let magnitude := value.magnitude
  let numeral? := fun (count : Nat) => value.numeralAt? (magnitude - (count + 1))
  ((List.range 17).findSome? numeral?).getD ⟨0, 0⟩

end Binary64

namespace Numeral

/-- The numeral in positional notation, with at least one digit behind the point. -/
def positional (numeral : Numeral) : List Char :=
  let digits := Nat.toDigits 10 numeral.digits
  if 0 ≤ numeral.power then
    digits ++ List.replicate numeral.power.toNat '0' ++ ['.', '0']
  else
    let places := (-numeral.power).toNat
    let padded := List.replicate (places + 1 - digits.length) '0' ++ digits
    let whole := padded.take (padded.length - places)
    let fraction := padded.drop (padded.length - places)
    let shown := (fraction.reverse.dropWhile (· == '0')).reverse
    whole ++ '.' :: if shown.isEmpty then ['0'] else shown

end Numeral

inductive Float64 where
  | finite (negative : Bool) (value : Binary64)
  | infinite (negative : Bool)
  | notANumber
deriving DecidableEq, Repr

/-- The number nearest to `digits * 10 ^ power`, infinite if that is too large.  Powers far beyond
the range of the format are cut off before they are computed. -/
def Float64.ofDecimal (negative : Bool) (digits : Nat) (power : Int) : Float64 :=
  let size : Int := (Nat.toDigits 10 digits).length + power
  if digits = 0 ∨ size < -400 then .finite negative ⟨0, leastExponent⟩
  else if 400 < size then .infinite negative
  else
    let value := Binary64.ofDecimal digits power
    if value.isTooLarge then .infinite negative else .finite negative value

def Float64.text : Float64 → String
  | .finite negative value =>
    let digits := if value.significand = 0 then ['0', '.', '0'] else value.shortest.positional
    String.ofList (if negative then '-' :: digits else digits)
  | .infinite negative => if negative then "-inf" else "inf"
  | .notANumber => "NaN"

end SelectorMangling.Decimal
