/-!
# Binary floating-point values

Finite values of the 64-bit binary format are a significand below `2 ^ 53` times a power of two
that is at least `2 ^ (-1074)`.  Reading a decimal numeral rounds it to the nearest such value, a
tie going to the even significand; everything here is exact arithmetic on natural numbers.
-/

namespace SelectorMangling.Decimal

def significandBits : Nat := 53

def leastExponent : Int := -1074

/-- The quotient of two numbers rounded to the nearest whole number, a tie going to the even
one. -/
def roundDiv (numerator denominator : Nat) : Nat :=
  let quotient := numerator / denominator
  let twice := 2 * (numerator % denominator)
  if twice > denominator || (twice == denominator && quotient % 2 == 1) then quotient + 1
  else quotient

/-- A finite value `significand * 2 ^ exponent`. -/
structure Binary64 where
  significand : Nat
  exponent : Int
deriving DecidableEq, Repr

namespace Binary64

/-- The value as a fraction. -/
def numerator (value : Binary64) : Nat := value.significand * Nat.pow 2 value.exponent.toNat

def denominator (value : Binary64) : Nat := Nat.pow 2 (-value.exponent).toNat

def scaledRatio (numerator denominator : Nat) (exponent : Int) : Nat × Nat :=
  (numerator * Nat.pow 2 (-exponent).toNat, denominator * Nat.pow 2 exponent.toNat)

/-- The value nearest to a fraction, without a bound on its size. -/
def ofRatio (numerator denominator : Nat) : Binary64 :=
  if numerator = 0 then ⟨0, leastExponent⟩
  else
    let magnitude : Int := (Nat.log2 numerator : Int) - Nat.log2 denominator
    let low := max (magnitude - significandBits) leastExponent
    let trial := scaledRatio numerator denominator low
    let exponent := if trial.1 / trial.2 < Nat.pow 2 significandBits then low else low + 1
    let scaled := scaledRatio numerator denominator exponent
    ⟨roundDiv scaled.1 scaled.2, exponent⟩

def isTooLarge (value : Binary64) : Bool :=
  Nat.pow 2 1024 * value.denominator ≤ value.numerator

def ofDecimal (digits : Nat) (power : Int) : Binary64 :=
  ofRatio (digits * Nat.pow 10 power.toNat) (Nat.pow 10 (-power).toNat)

/-- A whole number rounded to the precision of the format. -/
def roundNat (n : Nat) : Nat :=
  let value := ofRatio n 1
  value.numerator / value.denominator

end Binary64

end SelectorMangling.Decimal
