import SelectorMangling.Unicode.Hidden

/-!
# Quoted text

Log lines and error messages show names and paths between double quotes.  A quotation mark, a
backslash and the usual controls get a backslash; every other hidden character is written by its
code point, so that the quoted form is visible as a whole.
-/

namespace SelectorMangling.Text

def hexDigits (n : Nat) : List Char := Nat.toDigits 16 n

/-- How one character is written between double quotes. -/
def quoteChar (c : Char) : List Char :=
  if c = '\x00' then ['\\', '0']
  else if c = '\t' then ['\\', 't']
  else if c = '\n' then ['\\', 'n']
  else if c = '\r' then ['\\', 'r']
  else if c = '\\' || c = '"' then ['\\', c]
  else if Unicode.isHidden c then ['\\', 'u', '\x7b'] ++ hexDigits c.toNat ++ ['\x7d']
  else [c]

/-- A text between double quotes. -/
def quoted (text : String) : String :=
  String.ofList (['"'] ++ text.toList.flatMap quoteChar ++ ['"'])

end SelectorMangling.Text
