import LookML.Line

/-!
# Segments

A segment is a property whose value is SQL or markup ended by `;;`.  Grouping
folds the lines of each segment into one unit and passes every other line
through.
-/

namespace LookML

open Code

/-- A segment: its property, the value on its opening line, its lines.  A segment
on one line has neither body nor closing line; one that is never ended has no
closing line. -/
structure Segment where
  property : Text
  value : Text
  inline : Bool
  opening : Line
  body : List Line := []
  closing : Option Line := none
  deriving Repr, DecidableEq

namespace Segment

/-- The depth of the property. -/
def depth (segment : Segment) : Nat :=
  segment.opening.depth

def terminated (segment : Segment) : Bool :=
  segment.inline || segment.closing.isSome

def lines (segment : Segment) : List Line :=
  segment.opening :: segment.body ++ segment.closing.toList

/-- The value of the segment without the terminator. -/
def text (segment : Segment) : Text :=
  let head := stripTerminator segment.value
  let tail := segment.closing.toList.map fun line => stripTerminator line.text
  Text.trim <| Text.joinWith ['\n'] <|
    [head].filter (!·.isEmpty) ++ segment.body.map Line.stripped
      ++ tail.filter (!·.isEmpty)

end Segment

/-- A line on its own, or a segment. -/
inductive Entry where
  | single (line : Line)
  | grouped (segment : Segment)
  deriving Repr, DecidableEq

namespace Entry

def lines : Entry → List Line
  | single line => [line]
  | grouped segment => segment.lines

/-- The entry a line makes outside an open segment: itself, a segment on one
line, or nothing yet. -/
def ofLine (line : Line) : Entry :=
  match line.shape with
  | .segmentInline property value =>
    .grouped { property, value, inline := true, opening := line }
  | _ => .single line

/-- Group lines while a segment may be open. -/
def groupFrom : Option Segment → List Line → List Entry
  | pending, [] => pending.toList.map .grouped
  | none, line :: lines =>
    match line.shape with
    | .segmentOpen property value =>
      groupFrom (some { property, value, inline := false, opening := line }) lines
    | _ => ofLine line :: groupFrom none lines
  | some segment, line :: lines =>
    match line.shape with
    | .segmentContent =>
      groupFrom (some { segment with body := segment.body ++ [line] }) lines
    | .segmentClose =>
      .grouped { segment with closing := some line } :: groupFrom none lines
    | .segmentOpen property value =>
      .grouped segment ::
        groupFrom (some { property, value, inline := false, opening := line }) lines
    | _ => .grouped segment :: ofLine line :: groupFrom none lines

/-- Fold the lines of every segment into one entry. -/
def group (lines : List Line) : List Entry :=
  groupFrom none lines

end Entry

end LookML
