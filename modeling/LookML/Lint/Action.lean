import LookML.Edit
import LookML.Lint.Result

/-!
# Actions

What an editor can offer for a violation: an edit that mends it where one is
known, and always the command that disables its rule.
-/

namespace LookML.Lint

open Text

/-- An offer to the user: edits to make, or a command to run. -/
structure Action where
  title : Text
  rule : Text
  edits : List Edit := []
  command : Option Text := none
  arguments : List Text := []
  preferred : Bool := false
  deriving Repr, DecidableEq

/-- The dimension that gives a view a primary key. -/
def primaryKeyTemplate (unit : Text) : Text :=
  ['\n'] ++ joinLines
    [unit ++ "dimension: pk \x7b".toList,
      unit ++ unit ++ "primary_key: yes".toList,
      unit ++ unit ++ "type: string".toList,
      unit ++ unit ++ "sql: $\x7bTABLE\x7d.id ;;".toList,
      unit ++ "\x7d".toList,
      []]

/-- The text in double quotes behind the first occurrence of a lead. -/
def quotedAfter? (lead text : Text) : Option Text :=
  (search
    (fun _ rest => do
      let rest ← after? (lead ++ " \"".toList) rest
      let content := rest.takeWhile (· ≠ '"')
      if content.isEmpty ∨ content.length = rest.length then none else some content)
    text).map (·.2)

/-- The line from which on the place of a violation is searched for. -/
def Violation.searchStart (violation : Violation) : Nat :=
  (violation.line.getD 0).toNat

/-- Insert a primary key before the closing brace of the view. -/
def addPrimaryKey? (violation : Violation) (text unit : Text) : Option Action := do
  let named := (violation.data.get? "view".toList).getD []
  let name := if named.isEmpty then (violation.path.drop 1).headD [] else named
  let view ← (Document.ofText ({} : FormatSettings).segmentProperties text).view? name
  let footer ← view.footer
  let position : Position := ⟨footer.number, 0⟩
  some
    { title := "Add primary key dimension".toList
      rule := violation.rule
      edits := [⟨position, position, primaryKeyTemplate unit⟩]
      preferred := true }

def renamePrimaryKey? (violation : Violation) (text : Text) : Option Action := do
  let name ← (violation.data.get? "field".toList).or
    (quotedAfter? "dimension".toList violation.message)
  let (number, column, length) ←
    findLine? (headerIn? false "dimension".toList name) violation.searchStart text.lines
  some
    { title := "Rename dimension to \"pk\"".toList
      rule := violation.rule
      edits := [⟨⟨number, column⟩, ⟨number, column + length⟩, "dimension: pk \x7b".toList⟩] }

/-- The column of the first occurrence of a reference in a line that is not part of
a longer word or path and not inside a substitution. -/
def referenceIn? (reference line : Text) : Option Nat :=
  (search
    (fun before rest =>
      if before.any fun c => isWord c || c == '.' || c == '\x7b' then none
      else
        (after? reference rest).bind fun tail =>
          if tail.head?.any isWord then none else some ())
    line).map (·.1)

/-- Replace a bare reference by a substitution. -/
def substituteReference? (violation : Violation) (text : Text) : Option Action := do
  let reference ← (violation.data.get? "reference".toList).or
    (quotedAfter? "direct table reference".toList violation.message)
  let (number, column) ← findLine? (referenceIn? reference) violation.searchStart text.lines
  let replacement := "$\x7b".toList ++ reference ++ "\x7d".toList
  some
    { title := "Replace \"".toList ++ reference ++ "\" with ".toList ++ replacement
      rule := violation.rule
      edits := [⟨⟨number, column⟩, ⟨number, column + reference.length⟩, replacement⟩]
      preferred := true }

def disableRule (rule : Text) : Action where
  title := "Disable ".toList ++ rule ++ " rule".toList
  rule := rule
  command := some "lookml.disableRule".toList
  arguments := [rule]

/-- The edit that mends a violation, if one is known. -/
def mend? (violation : Violation) (text unit : Text) : Option Action :=
  let rule := upper violation.rule
  if rule = "K1".toList then
    if violation.path.length = 2 then addPrimaryKey? violation text unit
    else renamePrimaryKey? violation text
  else if rule = "E1".toList then
    substituteReference? violation text
  else
    none

/-- All offers for a violation in a text, given one level of indentation. -/
def actions (violation : Violation) (text unit : Text) : List Action :=
  (mend? violation text unit).toList ++ [disableRule (upper violation.rule)]

end LookML.Lint
