import LookML.Data.Check
import LookML.Lint.Model
import LookML.Lint.Violation
import LookML.Settings.Read

/-!
# Lint models and violations as data

Editors hand over lint models and violations as records.
-/

namespace LookML.Lint

open Data

/-- A text that may be absent. -/
def asOptionalText : Value → Checked (Option Text) :=
  Value.optional Value.asText

def asLine : Value → Checked (Option Int) :=
  Value.optional Value.asInteger

namespace FieldSpec

/-- A field from the entries of a record. -/
def ofEntries (entries : List (Text × Value)) : Checked FieldSpec :=
  FieldSpec.mk
    <$> requiredField entries "name" Value.asText
    <*> optionalField entries "type" none asOptionalText
    <*> optionalField entries "sql" none asOptionalText
    <*> optionalField entries "html" none asOptionalText
    <*> optionalField entries "primary_key" false Value.asFlag
    <*> optionalField entries "label" none asOptionalText
    <*> optionalField entries "description" none asOptionalText
    <*> optionalField entries "line" none asLine

end FieldSpec

namespace DerivedTable

/-- A derived table from the entries of a record. -/
def ofEntries (entries : List (Text × Value)) : Checked DerivedTable :=
  DerivedTable.mk
    <$> optionalField entries "sql" none asOptionalText
    <*> optionalField entries "explore_source" none asOptionalText
    <*> optionalField entries "line" none asLine

end DerivedTable

/-- Records keyed by name. -/
def asRecords {α : Type} (read : List (Text × Value) → Checked α) :
    Value → Checked (Keyed α) :=
  Value.asKeyed (Value.asRecord read)

namespace ViewSpec

/-- A view from the entries of a record. -/
def ofEntries (entries : List (Text × Value)) : Checked ViewSpec :=
  ViewSpec.mk
    <$> requiredField entries "name" Value.asText
    <*> optionalField entries "sql_table_name" none asOptionalText
    <*> optionalField entries "derived_table" none
      (Value.optional (Value.asRecord DerivedTable.ofEntries))
    <*> optionalField entries "dimensions" [] (asRecords FieldSpec.ofEntries)
    <*> optionalField entries "dimension_groups" [] (asRecords FieldSpec.ofEntries)
    <*> optionalField entries "measures" [] (asRecords FieldSpec.ofEntries)
    <*> optionalField entries "filters" [] (asRecords FieldSpec.ofEntries)
    <*> optionalField entries "parameters" [] (asRecords FieldSpec.ofEntries)
    <*> optionalField entries "line" none asLine

end ViewSpec

namespace JoinSpec

/-- A join from the entries of a record. -/
def ofEntries (entries : List (Text × Value)) : Checked JoinSpec :=
  JoinSpec.mk
    <$> requiredField entries "name" Value.asText
    <*> optionalField entries "sql_on" none asOptionalText
    <*> optionalField entries "relationship" none asOptionalText
    <*> optionalField entries "type" none asOptionalText
    <*> optionalField entries "view_label" none asOptionalText
    <*> optionalField entries "line" none asLine

end JoinSpec

namespace ExploreSpec

/-- An explore from the entries of a record. -/
def ofEntries (entries : List (Text × Value)) : Checked ExploreSpec :=
  ExploreSpec.mk
    <$> requiredField entries "name" Value.asText
    <*> optionalField entries "view_name" none asOptionalText
    <*> optionalField entries "joins" [] (asRecords JoinSpec.ofEntries)
    <*> optionalField entries "line" none asLine

end ExploreSpec

namespace ModelSpec

/-- A model block from the entries of a record. -/
def ofEntries (entries : List (Text × Value)) : Checked ModelSpec :=
  ModelSpec.mk
    <$> requiredField entries "name" Value.asText
    <*> optionalField entries "connection" none asOptionalText
    <*> optionalField entries "includes" [] (Value.asList Value.asText)
    <*> optionalField entries "line" none asLine

end ModelSpec

namespace Model

/-- A lint model from the entries of a record. -/
def ofEntries (entries : List (Text × Value)) : Checked Model :=
  Model.mk
    <$> optionalField entries "views" [] (asRecords ViewSpec.ofEntries)
    <*> optionalField entries "explores" [] (asRecords ExploreSpec.ofEntries)
    <*> optionalField entries "models" [] (asRecords ModelSpec.ofEntries)

def ofValue : Value → Checked Model :=
  Value.asRecord ofEntries

end Model

namespace Violation

/-- A violation from the entries of a record. -/
def ofEntries (entries : List (Text × Value)) : Checked Violation :=
  Violation.mk
    <$> requiredField entries "rule_id" Value.asText
    <*> requiredField entries "message" Value.asText
    <*> optionalField entries "severity" .warning LintSettings.asSeverity
    <*> optionalField entries "path" [] (Value.asList Value.asText)
    <*> optionalField entries "line" none asLine
    <*> optionalField entries "data" [] (Value.asKeyed Value.asText)

def ofValue : Value → Checked Violation :=
  Value.asRecord ofEntries

/-- The entries of a violation as a record. -/
def entries (violation : Violation) : List (Text × Value) :=
  [("rule_id".toList, .text violation.rule),
    ("message".toList, .text violation.message),
    ("severity".toList, .text violation.severity.word.toList),
    ("path".toList, .list (violation.path.map .text)),
    ("line".toList, match violation.line with
      | some line => .integer line
      | none => .absent),
    ("data".toList, .table (violation.data.map fun (key, value) => (key, .text value)))]

end Violation

end LookML.Lint
