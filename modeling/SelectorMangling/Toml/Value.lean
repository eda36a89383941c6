import SelectorMangling.Decimal.Shortest
import SelectorMangling.Text.Quoted

/-!
# Values of TOML documents

The values that a key of a document can have.  Settings use texts and lists of texts; of every
other value its kind is needed to say what stands there instead.
-/

namespace SelectorMangling.Toml

inductive Value where
  | text (content : String)
  | integer (n : Int)
  | float (number : Decimal.Float64)
  | boolean (value : Bool)
  | array (items : List Value)
  /-- A table or a date and time, which settings have no use for. -/
  | map

namespace Value

/-- How a value is named when another kind was asked for. -/
def described : Value → String
  | text content => "string " ++ Text.quoted content
  | integer n => s!"integer `{n}`"
  | float number => s!"floating point `{number.text}`"
  | boolean value => s!"boolean `{value}`"
  | array _ => "sequence"
  | map => "map"

end Value

end SelectorMangling.Toml
