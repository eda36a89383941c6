/-!
# JSON values and faults

Of the values that a JSON object can hold, a catalog file uses texts and unsigned whole numbers.
All other values are only told apart from these.  A text that is no JSON object is refused with the
kind of fault it has.
-/

namespace SelectorMangling.Json

/-- A member value, as far as it matters to a catalog. -/
inductive Value where
  | text (content : String)
  /-- A whole number without sign, fraction or exponent that fits 64 bits. -/
  | natural (n : Nat)
  /-- Any other number, a literal, an array or an object. -/
  | other
deriving DecidableEq, Repr

inductive Fault where
  /-- The text is malformed, or something stands behind its value. -/
  | malformed
  /-- The text ends before its value does. -/
  | incomplete
  /-- The value is of another kind than an object. -/
  | notObject
deriving DecidableEq, Repr

def Fault.message : Fault → String
  | .malformed => "malformed JSON text"
  | .incomplete => "JSON text ends too early"
  | .notObject => "JSON text is not an object"

end SelectorMangling.Json
