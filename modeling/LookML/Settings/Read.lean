import LookML.Data.Check
import LookML.Settings
import LookML.Text.Upper

/-!
# Settings from data

The tables `formatter` and `linter` of configuration data.  Unknown entries are
ignored.  Identifiers of rules are trimmed and written in upper case.
-/

namespace LookML

open Data Text

/-- Why data are no settings: a part is not of the kind that its entries could be
read from, or entries do not fit. -/
inductive SettingsFault where
  | wrongKind
  | misfits (misfits : List Misfit)
  deriving Repr, DecidableEq

namespace FormatSettings

/-- The settings of the formatter. -/
def ofEntries (entries : List (Text × Value)) : Checked FormatSettings :=
  let defaults : FormatSettings := {}
  (fun width useSpaces groupFields sortFields sqlProperties markupProperties =>
      { indentWidth := width.val, indentWidth_pos := width.property, useSpaces, groupFields,
        sortFields, sqlProperties, markupProperties : FormatSettings })
    <$> optionalField entries "indent_width" ⟨defaults.indentWidth, defaults.indentWidth_pos⟩
      Value.asPositive
    <*> optionalField entries "use_spaces" defaults.useSpaces Value.asFlag
    <*> optionalField entries "group_fields_by_type" defaults.groupFields Value.asFlag
    <*> optionalField entries "sort_fields" defaults.sortFields Value.asFlag
    <*> optionalField entries "sql_properties" defaults.sqlProperties
      (Value.asSet Value.asText)
    <*> optionalField entries "markup_properties" defaults.markupProperties
      (Value.asSet Value.asText)

end FormatSettings

namespace LintSettings

/-- Identifiers of rules, trimmed and in upper case, without empty ones. -/
def normalizeIds (ids : List Text) : List Text :=
  ((ids.map trim).filter (!·.isEmpty)).map upper

/-- Identifiers of rules: a single one, the members of a list, or the keys of a
table. -/
def ruleIds? : Value → Option (List Text)
  | .text id => some (normalizeIds [id])
  | .list members => some (normalizeIds (members.map Value.display))
  | .table entries => some (normalizeIds (entries.map (·.1)))
  | _ => none

/-- The identifiers of rules in an entry. -/
def ruleIdsIn (entries : List (Text × Value)) (name : String) (default : List Text) :
    Except SettingsFault (List Text) :=
  match entries.lookup name.toList with
  | none => .ok default
  | some value =>
    match ruleIds? value with
    | some ids => .ok ids
    | none => .error .wrongKind

/-- Entries with keys in upper case; of several entries of a key the last one
counts. -/
def upperKeys (entries : List (Text × Value)) : List (Text × Value) :=
  entries.foldl
    (fun merged (key, value) =>
      let key := upper key
      if (merged.lookup key).isSome then
        merged.map fun entry => if entry.1 = key then (key, value) else entry
      else
        merged ++ [(key, value)])
    []

def asSeverity : Value → Checked Severity
  | .text word =>
    match Severity.ofWord? word with
    | some severity => .valid severity
    | none => .mismatch .notChoice
  | _ => .mismatch .notChoice

def asSeverities : Value → Checked (Keyed Severity)
  | .table entries => Value.asKeyed asSeverity (.table (upperKeys entries))
  | _ => .mismatch .notTable

/-- The settings of the linter. -/
def ofEntries (entries : List (Text × Value)) : Except SettingsFault LintSettings := do
  let defaults : LintSettings := {}
  let rules ← ruleIdsIn entries "rules" defaults.rules
  let disabledRules ← ruleIdsIn entries "disabled_rules" defaults.disabledRules
  let checked :=
    (fun enabled severities useFallbackReader =>
        { enabled, rules, disabledRules, severities, useFallbackReader : LintSettings })
      <$> optionalField entries "enabled" defaults.enabled Value.asFlag
      <*> optionalField entries "severities" defaults.severities asSeverities
      <*> optionalField entries "use_fallback_parser" defaults.useFallbackReader Value.asFlag
  match checked with
  | .valid settings => .ok settings
  | .faulty misfits => .error (.misfits misfits)

end LintSettings

namespace Settings

/-- The entries of a table inside configuration data. -/
def section? (entries : List (Text × Value)) (name : String) :
    Except SettingsFault (List (Text × Value)) :=
  match entries.lookup name.toList with
  | none => .ok []
  | some (.table entries) => .ok entries
  | some _ => .error .wrongKind

/-- Settings from data.  The formatter is looked at first. -/
def ofEntries (entries : List (Text × Value)) : Except SettingsFault Settings := do
  let format ←
    match FormatSettings.ofEntries (← section? entries "formatter") with
    | .valid settings => .ok settings
    | .faulty misfits => .error (SettingsFault.misfits misfits)
  let lint ← LintSettings.ofEntries (← section? entries "linter")
  return { format, lint }

end Settings

end LookML
