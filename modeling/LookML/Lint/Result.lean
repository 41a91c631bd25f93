import LookML.Document.Builder
import LookML.Lint.Fallback
import LookML.Lint.Locate
import LookML.Lint.Rule
import LookML.Lint.Structural

/-!
# Linting a text

A text is read into a lint model, by structure unless the settings ask for the
fallback reader, and the active rules are applied.  Every violation gets a line.
-/

namespace LookML.Lint

/-- How the lint model was read. -/
inductive Reader where
  | structural
  | fallback
  deriving Repr, DecidableEq

/-- The outcome of linting. -/
structure Result where
  violations : List Violation := []
  reader : Reader := .structural
  anomalies : List Anomaly := []
  deriving Repr, DecidableEq

namespace Result

/-- Whether the structure of the text has anomalies. -/
def degraded (result : Result) : Bool :=
  !result.anomalies.isEmpty

def ofSeverity (result : Result) (severity : Severity) : List Violation :=
  result.violations.filter fun violation => violation.severity = severity

end Result

/-- A violation with a line: its own, or the one its path leads to. -/
def Violation.located (text : Text) (violation : Violation) : Violation :=
  { violation with line := violation.line.getD (lineOfPath text violation.path) }

/-- The lint model of a text by its structure. -/
def structuralModel (settings : FormatSettings) (text : Text) : Model :=
  .ofDocument (.ofText settings.segmentProperties text)

/-- Apply the rules of the settings to a model. -/
def violationsOf (settings : LintSettings) (text : Text) (model : Model) : List Violation :=
  (applyRules settings.rules settings.disabledRules settings.severities model).map
    (.located text)

def lintText (settings : Settings) (text : Text) : Result :=
  if !settings.lint.enabled then
    {}
  else if settings.lint.useFallbackReader then
    { violations := violationsOf settings.lint text (Fallback.read text)
      reader := .fallback }
  else
    let document := Document.ofText settings.format.segmentProperties text
    { violations := violationsOf settings.lint text (.ofDocument document)
      anomalies := document.anomalies }

end LookML.Lint
