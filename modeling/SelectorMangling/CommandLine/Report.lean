import SelectorMangling.CommandLine.Command

/-!
# Reports

What a user sees of a run: a line for each event, the chain of reasons of a failure, and why
arguments come to no run.
-/

namespace SelectorMangling

/-- A number of nanoseconds in seconds with two places, a half going up. -/
def secondsText (nanoseconds : Nat) : String :=
  let hundredths := (nanoseconds + 5000000) / 10000000
  let places := hundredths % 100
  Nat.repr (hundredths / 100) ++ (if places < 10 then ".0" else ".") ++ Nat.repr places

/-- The name of a level in five columns. -/
def Site.Level.column (level : Level) : String := level.name.pushn ' ' (5 - level.name.length)

def Site.Event.line (seconds : String) (event : Event) : String :=
  s!"[{event.level.column}] {event.message seconds}"

/-- How the causes behind a failure are listed: indented, and counted if there are several. -/
def listCauses (causes : List String) : List String :=
  match causes with
  | [cause] => [s!"    {cause}"]
  | _ => causes.zipIdx.map fun (cause, place) => s!"    {place}: {cause}"

/-- What is told about a failure, from a chain of reasons. -/
def failureReport (chain : List Reason) : String :=
  match chain.map Reason.message with
  | [] => "Error"
  | [message] => s!"Error: {message}"
  | message :: causes =>
    "\n".intercalate ([s!"Error: {message}", "", "Caused by:"] ++ listCauses causes)

namespace Arguments

/-- Whether a stop is what the user asked for. -/
def Stop.isAnswer : Stop → Bool
  | help | version => true
  | _ => false

def Stop.report (stop : Stop) : String :=
  if stop.isAnswer then stop.message
  else
    s!"error: {stop.message}\n\n{usageText}\n\nFor more information, try '--help'.\n"

def Stop.exitCode (stop : Stop) : UInt32 := if stop.isAnswer then 0 else 2

end Arguments

end SelectorMangling
