import LookML.Keyed

/-!
# Settings

What the formatter and the linter can be told.
-/

namespace LookML

/-- How serious a violation is. -/
inductive Severity where
  | error
  | warning
  | info
  | hint
  deriving Repr, DecidableEq

namespace Severity

def word : Severity → String
  | error => "error"
  | warning => "warning"
  | info => "info"
  | hint => "hint"

def all : List Severity :=
  [error, warning, info, hint]

/-- The severity a word stands for. -/
def ofWord? (word : Text) : Option Severity :=
  all.find? fun severity => severity.word.toList = word

end Severity

/-- Properties whose value is SQL, unless settings say otherwise. -/
def defaultSqlProperties : List Text :=
  ["sql".toList, "sql_on".toList, "sql_where".toList, "sql_always_where".toList,
    "sql_always_having".toList, "sql_trigger_value".toList, "sql_trigger".toList,
    "sql_table_name".toList, "sql_create".toList, "sql_start".toList,
    "sql_end".toList, "sql_preamble".toList, "sql_latitude".toList,
    "sql_longitude".toList, "sql_distinct_key".toList, "sql_step".toList,
    "sql_foreign_key".toList]

/-- Properties whose value is markup, unless settings say otherwise. -/
def defaultMarkupProperties : List Text :=
  ["html".toList, "expression".toList]

/-- What the formatter can be told.  The values of SQL properties are spelled
anew, those of markup properties only indented. -/
structure FormatSettings where
  indentWidth : Nat := 2
  useSpaces : Bool := true
  groupFields : Bool := true
  sortFields : Bool := true
  sqlProperties : List Text := defaultSqlProperties
  markupProperties : List Text := defaultMarkupProperties
  indentWidth_pos : 0 < indentWidth := by first | exact Nat.two_pos | decide
  deriving Repr, DecidableEq

namespace FormatSettings

/-- One level of indentation: spaces, or one tab. -/
def indentUnit (settings : FormatSettings) : Text :=
  if settings.useSpaces then List.replicate settings.indentWidth ' ' else ['\t']

def indent (settings : FormatSettings) (depth : Nat) : Text :=
  if settings.useSpaces then List.replicate (depth * settings.indentWidth) ' '
  else List.replicate depth '\t'

/-- Every property that opens a segment. -/
def segmentProperties (settings : FormatSettings) : List Text :=
  settings.sqlProperties ++ settings.markupProperties

end FormatSettings

/-- The identifiers of all rules. -/
def defaultRules : List Text :=
  ["K1".toList, "E1".toList, "F1".toList]

/-- What the linter can be told.  Identifiers of rules are in upper case. -/
structure LintSettings where
  enabled : Bool := true
  rules : List Text := defaultRules
  disabledRules : List Text := []
  severities : Keyed Severity := []
  useFallbackReader : Bool := false
  deriving Repr, DecidableEq

namespace LintSettings

/-- The rules to apply. -/
def activeRules (settings : LintSettings) : List Text :=
  settings.rules.filter fun rule => !settings.disabledRules.contains rule

end LintSettings

structure Settings where
  format : FormatSettings := {}
  lint : LintSettings := {}
  deriving Repr, DecidableEq

end LookML
