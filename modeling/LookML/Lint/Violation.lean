import LookML.Settings
import LookML.Text.Decimal

/-!
# Violations

A violation says which rule is broken, where, and what an editor needs to know to
mend it.
-/

namespace LookML.Lint

/-- A broken rule.  The path leads from the collection of declarations to the
element concerned; the line is counted from zero and may be unknown. -/
structure Violation where
  rule : Text
  message : Text
  severity : Severity := .warning
  path : List Text := []
  line : Option Int := none
  data : Keyed Text := []
  deriving Repr, DecidableEq

namespace Violation

/-- Where the violation is: its line, counted from one, or its path. -/
def place (violation : Violation) : Text :=
  match violation.line with
  | some line => "line ".toList ++ Text.ofInt (line + 1)
  | none => Text.joinWith ['/'] violation.path

/-- The violation on one line. -/
def report (violation : Violation) : Text :=
  violation.place ++ ": ".toList ++ violation.severity.word.toList ++ ": [".toList
    ++ violation.rule ++ "] ".toList ++ violation.message

end Violation

end LookML.Lint
