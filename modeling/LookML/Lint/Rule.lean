import LookML.Lint.Model
import LookML.Lint.Reference
import LookML.Lint.Violation
import LookML.Text.Digit
import LookML.Text.IgnoringCase
import LookML.Text.Upper

/-!
# Rules

Each rule is a check of its own over the lint model.  `K1` asks every view with a
table for a primary key named `pk`, perhaps with a number; `E1` asks joins to
substitute references; `F1` asks fields to stay within their view.
-/

namespace LookML.Lint

open Text

/-- A rule: its identifier and its check. -/
structure Rule where
  id : Text
  check : Model → List Violation

/-- Whether a name is `pk` in any case, perhaps followed by digits.  One line break
may end it. -/
def isPrimaryKeyName (name : Text) : Bool :=
  match afterWord? "pk".toList name with
  | some rest =>
    let rest := rest.dropWhile isDecimalDigit
    rest.isEmpty || rest == ['\n']
  | none => false

/-- The views that are tables. -/
def tableBackedViews (model : Model) : List ViewSpec :=
  model.views.values.filter ViewSpec.isTableBacked

def inQuotes (text : Text) : Text :=
  ['"'] ++ text ++ ['"']

def missingPrimaryKey (view : ViewSpec) : Violation where
  rule := "K1".toList
  message := "View ".toList ++ inQuotes view.name
    ++ " is missing a primary key dimension".toList
  path := ["views".toList, view.name]
  line := view.line
  data := [("view".toList, view.name)]

/-- A primary key with another name than `pk`. -/
def misnamedPrimaryKey (view : ViewSpec) (field : FieldSpec) : Violation where
  rule := "K1".toList
  message := "Primary key dimension ".toList ++ inQuotes field.name ++ " in view ".toList
    ++ inQuotes view.name ++ " should follow naming convention (pk)".toList
  path := ["views".toList, view.name, "dimensions".toList, field.name]
  line := field.line
  data := [("view".toList, view.name), ("field".toList, field.name)]

/-- The violations of `K1` in a view. -/
def primaryKeyViolations (view : ViewSpec) : List Violation :=
  let keys := view.dimensions.values.filter (·.primaryKey)
  if keys.isEmpty then
    [missingPrimaryKey view]
  else
    (keys.filter fun field => !isPrimaryKeyName field.name).map (misnamedPrimaryKey view)

def bareReference (explore : ExploreSpec) (join : JoinSpec) (reference : Text) :
    Violation where
  rule := "E1".toList
  message := "Join ".toList ++ inQuotes join.name ++ " in explore ".toList
    ++ inQuotes explore.name ++ " uses direct table reference ".toList
    ++ inQuotes reference ++ " - use $\x7b\x7d substitution instead".toList
  path := ["explores".toList, explore.name, "joins".toList, join.name, "sql_on".toList]
  line := join.line
  data := [("explore".toList, explore.name), ("join".toList, join.name),
    ("reference".toList, reference)]

/-- The violations of `E1` in an explore. -/
def joinViolations (explore : ExploreSpec) : List Violation :=
  explore.joins.values.flatMap fun join =>
    (bareReferences (join.sqlOn.getD [])).map (bareReference explore join)

/-- The properties in which fields hold references, with the words that point at
them. -/
def referringProperties : List (Text × (FieldSpec → Option Text) × Text) :=
  [("sql".toList, FieldSpec.sql, []), ("html".toList, FieldSpec.html, " in HTML".toList)]

def crossViewReference (view : ViewSpec) (collection fieldType : Text) (field : FieldSpec)
    (property place reference : Text) : Violation where
  rule := "F1".toList
  message := fieldType ++ [' '] ++ inQuotes field.name ++ " in view ".toList
    ++ inQuotes view.name ++ " references another view".toList ++ place ++ " via ".toList
    ++ inQuotes reference
  path := ["views".toList, view.name, collection, field.name, property]
  line := field.line
  data := [("view".toList, view.name), ("field".toList, field.name),
    ("field_type".toList, fieldType), ("property".toList, property),
    ("reference".toList, reference)]

/-- The collections of fields that `F1` looks at, with the types of their
fields. -/
def referringCollections : List (Text × Text × (ViewSpec → Keyed FieldSpec)) :=
  [("dimensions".toList, "dimension".toList, ViewSpec.dimensions),
    ("dimension_groups".toList, "dimension_group".toList, ViewSpec.dimensionGroups),
    ("measures".toList, "measure".toList, ViewSpec.measures),
    ("filters".toList, "filter".toList, ViewSpec.filters)]

/-- The violations of `F1` in a view. -/
def referenceViolations (view : ViewSpec) : List Violation :=
  referringCollections.flatMap fun (collection, fieldType, fields) =>
    (fields view).values.flatMap fun field =>
      referringProperties.flatMap fun (property, value, place) =>
        (crossViewReferences view.name ((value field).getD [])).map
          (crossViewReference view collection fieldType field property place)

/-- All rules, in the order in which they are applied. -/
def rules : List Rule :=
  [⟨"K1".toList, fun model => (tableBackedViews model).flatMap primaryKeyViolations⟩,
    ⟨"E1".toList, fun model => model.explores.values.flatMap joinViolations⟩,
    ⟨"F1".toList, fun model => (tableBackedViews model).flatMap referenceViolations⟩]

/-- The identifiers that are enabled and not disabled, in upper case. -/
def activeIds (enabled disabled : List Text) : List Text :=
  let disabled := disabled.map upper
  (enabled.map upper).filter fun id => !disabled.contains id

/-- The rules with active identifiers. -/
def activeRules (enabled disabled : List Text) : List Rule :=
  rules.filter fun rule => (activeIds enabled disabled).contains rule.id

/-- The active identifiers that no rule has, in order. -/
def unknownIds (enabled disabled : List Text) : List Text :=
  sortedSet <| (activeIds enabled disabled).filter fun id => !(rules.map (·.id)).contains id

/-- A violation with the severity that is set for its rule. -/
def Violation.withSeverity (severity : Option Severity) (violation : Violation) : Violation :=
  { violation with severity := severity.getD violation.severity }

/-- The violations of the active rules. -/
def applyRules (enabled disabled : List Text) (severities : Keyed Severity) (model : Model) :
    List Violation :=
  (activeRules enabled disabled).flatMap fun rule =>
    (rule.check model).map (.withSeverity (severities.get? rule.id))

/-- A word that names no severity. -/
structure UnknownSeverity where
  word : Text
  deriving Repr, DecidableEq

/-- The violations of a rule with the severity that a word names.  The word is read
only if there are violations. -/
def Rule.checkWith (rule : Rule) (word : Option Text) (model : Model) :
    Except UnknownSeverity (List Violation) :=
  match rule.check model, word with
  | [], _ => .ok []
  | found, none => .ok found
  | found, some word =>
    match Severity.ofWord? word with
    | some severity => .ok (found.map (.withSeverity (some severity)))
    | none => .error ⟨word⟩

/-- The violations of the active rules, with severities given as words. -/
def applyRulesWorded (enabled disabled : List Text) (severities : Keyed Text) (model : Model) :
    Except UnknownSeverity (List Violation) := do
  let found ← (activeRules enabled disabled).mapM fun rule =>
    rule.checkWith (severities.get? rule.id) model
  return found.flatten

end LookML.Lint
