import SelectorMangling.Settings.Load
import SelectorMangling.Site.Mangle

/-!
# The command

Runs what a command line asks for: loads the settings and mangles the selectors of the locale.
-/

namespace SelectorMangling

open Site

inductive CommandFault where
  | invalidLocale (locale : String)
  | settings (fault : Settings.LoadFault)
  | mangling (locale : String) (fault : Site.Fault)
deriving DecidableEq, Repr

/-- Whether the command comes back with a fault. -/
def CommandFault.isReturned : CommandFault → Bool
  | mangling _ fault => fault.isReturned
  | _ => true

def CommandFault.chain : CommandFault → List Reason
  | invalidLocale locale => [.stated s!"invalid locale {Text.quoted locale}"]
  | settings fault => .stated "loading configuration" :: fault.chain
  | mangling locale fault =>
    .stated s!"mangling selectors for locale {Text.quoted locale}" :: fault.chain

/-- Mangles the selectors of a locale and tells what that came to. -/
def mangleAndTell (settings : Settings) (locale : String) : Work Unit := do
  let summary ← mangle settings locale
  if summary.reference then
    tell (.scanned summary.scannedFiles summary.addedSelectors summary.catalogSize)
  tell (.finished summary.rewrittenFiles summary.catalogSize)

def runCommand (arguments : Arguments) : ExceptT CommandFault (StateM Workspace) Unit := do
  if !isValidLocale arguments.locale then
    throw (.invalidLocale arguments.locale)
  match Settings.ofOptions (← get).tree arguments.options with
  | .error fault => throw (.settings fault)
  | .ok settings => do
    (tell (.started arguments.locale)).adapt (.mangling arguments.locale)
    (mangleAndTell settings arguments.locale).adapt (.mangling arguments.locale)

end SelectorMangling
