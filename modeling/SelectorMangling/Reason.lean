import SelectorMangling.Json.Basic
import SelectorMangling.Pattern.Reader

/-!
# Reasons

A failure is told as a chain of reasons: first what could not be done, then why, down to the first
cause.  Texts that cannot be read end a chain.
-/

namespace SelectorMangling

/-- One link of a chain of reasons. -/
inductive Reason where
  | stated (text : String)
  | json (fault : Json.Fault)
  | pattern (fault : Pattern.Fault)
  | toml
deriving DecidableEq, Repr

def Reason.message : Reason → String
  | stated text => text
  | json fault => fault.message
  | pattern fault => fault.message
  | toml => "malformed TOML document"

end SelectorMangling
