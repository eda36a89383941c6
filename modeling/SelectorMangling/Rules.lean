import SelectorMangling.Extraction.ClassName
import SelectorMangling.Extraction.CustomProperty
import SelectorMangling.Extraction.FrameworkSelector
import SelectorMangling.Extraction.StyleBody
import SelectorMangling.Pattern.Reader
import SelectorMangling.Settings.Basic
import SelectorMangling.SourceKind

/-!
# Extraction rules

Which selectors of a source file are candidates for the catalog: class names and custom properties
of its styles, and framework selectors of scripts.  Names that match a pattern of the settings are
left alone.
-/

namespace SelectorMangling

/-- The style sources of a file: the style bodies of a script and the whole of a stylesheet. -/
def styleSources (kind : SourceKind) (content : String) : List String :=
  match kind with
  | .script => Extraction.styleBodies content
  | .style => [content]
  | .markup => []

/-- The rules that depend on settings. -/
structure Rules where
  /-- Prefixes of framework selectors. -/
  stems : List String
  classNameIgnore : List Pattern
  frameworkIgnore : List Pattern

namespace Rules

def ofSettings (settings : Settings) : Except Pattern.Fault Rules := do
  let classNameIgnore ← settings.classNameIgnore.mapM Pattern.parse
  let frameworkIgnore ← settings.frameworkIgnore.mapM Pattern.parse
  return { stems := settings.frameworkPrefixes, classNameIgnore, frameworkIgnore }

def ignoresClassName (rules : Rules) (name : String) : Bool :=
  rules.classNameIgnore.any (·.isFoundIn name)

def ignoresFrameworkSelector (rules : Rules) (name : String) : Bool :=
  rules.frameworkIgnore.any (·.isFoundIn name)

def frameworkSelectors (rules : Rules) (script : String) : List String :=
  Extraction.frameworkSelectors rules.stems script

/-- The candidates of a source file, in the order in which they get codes: the class names of all
its styles, then the custom properties, then the framework selectors of a script. -/
def candidates (rules : Rules) (kind : SourceKind) (content : String) : List String :=
  let sources := styleSources kind content
  let classNames := (sources.flatMap Extraction.classNames).filter (!rules.ignoresClassName ·)
  let properties := sources.flatMap Extraction.customProperties
  let selectors :=
    if kind = .script then
      (rules.frameworkSelectors content).filter (!rules.ignoresFrameworkSelector ·)
    else []
  classNames ++ properties ++ selectors

/-- The candidates rule by rule: class names in which no pattern for class names is found, all custom
properties, and in a script the framework selectors in which no pattern for these is found. -/
theorem candidates_eq (rules : Rules) (kind : SourceKind) (content : String) :
    rules.candidates kind content =
      ((styleSources kind content).flatMap Extraction.classNames).filter
          (fun name => rules.classNameIgnore.all fun pattern => !pattern.isFoundIn name) ++
        (styleSources kind content).flatMap Extraction.customProperties ++
        if kind = .script then
          (Extraction.frameworkSelectors rules.stems content).filter
            fun name => rules.frameworkIgnore.all fun pattern => !pattern.isFoundIn name
        else [] := by
  simp only [candidates, ignoresClassName, ignoresFrameworkSelector, frameworkSelectors,
    List.not_any_eq_all_not]

/-- A candidate comes from one of the three rules. -/
theorem mem_candidates_iff {rules : Rules} {kind : SourceKind} {content name : String} :
    name ∈ rules.candidates kind content ↔
      ((∃ source ∈ styleSources kind content, name ∈ Extraction.classNames source) ∧
        ∀ pattern ∈ rules.classNameIgnore, pattern.isFoundIn name = false) ∨
      (∃ source ∈ styleSources kind content, name ∈ Extraction.customProperties source) ∨
      kind = .script ∧ name ∈ Extraction.frameworkSelectors rules.stems content ∧
        ∀ pattern ∈ rules.frameworkIgnore, pattern.isFoundIn name = false := by
  rw [candidates_eq]
  split <;> simp_all

end Rules

end SelectorMangling
