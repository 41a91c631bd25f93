import LookML.Text.Columns

/-!
# Tables in boxes

A table has a title centred above it, a heading, and rows.  Every column is as wide
as its widest cell, and each cell has a space on both sides.
-/

namespace LookML.Display

open Text

/-- A table: its title, the heading of each column, and rows of cells. -/
structure Table where
  title : Text
  heading : List Text
  rows : List (List Text)
  deriving Repr, DecidableEq

namespace Table

def widths (table : Table) : List Nat :=
  table.heading.zipIdx.map fun (heading, index) =>
    (table.rows.map fun row => columns ((row.drop index).headD [])).foldl max (columns heading)

/-- Texts between tab stops, the first of them at a column.  Each goes on to the next
multiple of eight columns, with a space at least. -/
def tabulate (column : Nat) : List Text → Text
  | [] => []
  | [text] => text
  | text :: texts =>
    let reached := column + columns (text ++ [' '])
    let spare := (8 - reached % 8) % 8
    text ++ List.replicate (spare + 1) ' ' ++ tabulate (reached + spare) texts

/-- A text with spaces in the place of its tabs. -/
def expandTabs (text : Text) : Text :=
  tabulate 0 (split '\t' text)

/-- A text with as many spaces on its right as it lacks columns. -/
def padded (width : Nat) (text : Text) : Text :=
  text ++ List.replicate (width - columns text) ' '

/-- A text filled up on its right.  A joiner at its end takes the first space to
itself, so the width is looked at once more. -/
def fill (width : Nat) (text : Text) : Text :=
  padded width (padded width text)

/-- A text with spaces on both sides; an odd space goes to the right. -/
def centre (width : Nat) (text : Text) : Text :=
  let spare := width - columns text
  List.replicate (spare / 2) ' ' ++ text ++ List.replicate (spare - spare / 2) ' '

/-- A row of cells between bars. -/
def row (bar : Char) (widths : List Nat) (cells : List Text) : Text :=
  [bar] ++ (widths.zip cells).flatMap fun (width, cell) =>
    [' '] ++ fill width (expandTabs cell) ++ [' ', bar]

/-- A rule across the table. -/
def rule (left line middle right : Char) (widths : List Nat) : Text :=
  [left] ++ joinWith [middle] (widths.map fun width => List.replicate (width + 2) line)
    ++ [right]

def lines (table : Table) : List Text :=
  let widths := table.widths
  let width := widths.foldl (fun total width => total + width + 3) 1
  [centre width table.title,
      rule '┏' '━' '┳' '┓' widths,
      row '┃' widths table.heading,
      rule '┡' '━' '╇' '┩' widths]
    ++ table.rows.map (row '│' widths)
    ++ [rule '└' '─' '┴' '┘' widths]

end Table

end LookML.Display
