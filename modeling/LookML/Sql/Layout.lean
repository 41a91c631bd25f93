import LookML.Segment
import LookML.Sql.Spelling

/-!
# The layout of segments

A segment on one line stays on one line.  Otherwise the lines of its body stand
below the property: primary clauses, comments and markup one level further in,
everything else two levels, and the terminator on a line of its own.  Lines that
begin inside an atom are written as they are.
-/

namespace LookML.Sql

open Text Code

/-- How a segment is laid out: one level of indentation, and whether its value is
markup, whose spelling is left alone. -/
structure Style where
  unit : Text
  markup : Bool
  deriving Repr, DecidableEq

namespace Style

def indent (style : Style) (depth : Nat) : Text :=
  times depth style.unit

/-- The text of a line and the closer of the atom still open at its end. -/
def restyle (style : Style) (pending : Option Text) (text : Text) : Text × Option Text :=
  if style.markup then
    let still := (tokenize true pending text).2
    if pending.isSome then (text, still)
    else if still.isNone then (trimRight (trimLeft text), still)
    else (trimLeft text, still)
  else
    spellLine pending text

/-- A line of the body of a segment at `depth`. -/
def bodyLine (style : Style) (depth : Nat) (pending : Option Text) (text : Text) :
    Text × Option Text :=
  if pending.isSome then (text, (style.restyle pending text).2)
  else if allBlank text then ([], none)
  else if isCommentLine text then (style.indent (depth + 1) ++ trim text, none)
  else
    let restyled := style.restyle none (trimLeft text)
    if style.markup || isPrimaryClause restyled.1 then
      (style.indent (depth + 1) ++ restyled.1, restyled.2)
    else
      (style.indent (depth + 2) ++ restyled.1, restyled.2)

/-- The lines of the body of a segment at `depth`. -/
def bodyLines (style : Style) (depth : Nat) : Option Text → List Text → List Text
  | _, [] => []
  | pending, text :: texts =>
    let line := style.bodyLine depth pending text
    line.1 :: style.bodyLines depth line.2 texts

/-- The text of a closing line before its terminator, unless that is blank. -/
def closingText? (closing : Text) : Option Text :=
  match cutLast? terminator closing with
  | some (before, _) => if allBlank before then none else some before
  | none => none

/-- The first line of a segment: its property with the text beside it. -/
def headLine (style : Style) (segment : Segment) (text : Text) : Text :=
  let property := style.indent segment.depth ++ segment.property ++ [':']
  if text.isEmpty then property else property ++ [' '] ++ text

def segmentLines (style : Style) (segment : Segment) : List Text :=
  if segment.inline then
    let text := (style.restyle none (stripTerminator segment.value)).1
    [style.headLine segment text ++ [' '] ++ terminator]
  else
    let head := style.restyle none segment.value
    let closing := segment.closing.toList
    style.headLine segment head.1
      :: style.bodyLines segment.depth head.2
          (segment.body.map (·.text) ++ closing.filterMap fun line => closingText? line.text)
      ++ closing.map fun _ => style.indent segment.depth ++ terminator

end Style

end LookML.Sql
