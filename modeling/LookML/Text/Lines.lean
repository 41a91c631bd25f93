import LookML.Text.Basic

/-!
# Lines of text

A line ends at a line feed or at a carriage return and line feed; a carriage
return on its own is a character of its line.
-/

namespace LookML.Text

/-- The pieces of a text between its line breaks, at least one. -/
def splitBreaks : Text → List Text
  | [] => [[]]
  | '\r' :: '\n' :: text => [] :: splitBreaks text
  | c :: text =>
    if c = '\n' then
      [] :: splitBreaks text
    else
      match splitBreaks text with
      | [] => [[c]]
      | line :: lines => (c :: line) :: lines

/-- The lines of a text; the empty text has none. -/
def lines (text : Text) : List Text :=
  if text.isEmpty then [] else splitBreaks text

/-- Lines written one after another with line feeds between them. -/
def joinLines (lines : List Text) : Text :=
  joinWith ['\n'] lines

/-- The text with every line break, a lone carriage return included, written as
a line feed. -/
def unifyBreaks : Text → Text
  | [] => []
  | '\r' :: '\n' :: text => '\n' :: unifyBreaks text
  | c :: text => (if c = '\r' then '\n' else c) :: unifyBreaks text

/-- Characters at which a display starts a new row. -/
def isRowBreak (c : Char) : Bool :=
  let code := c.toNat
  (0x0A ≤ code && code ≤ 0x0D) || (0x1C ≤ code && code ≤ 0x1E) || code == 0x85
    || code == 0x2028 || code == 0x2029

/-- The pieces of a text between its row breaks, at least one. -/
def splitRows : Text → List Text
  | [] => [[]]
  | '\r' :: '\n' :: text => [] :: splitRows text
  | c :: text =>
    if isRowBreak c then
      [] :: splitRows text
    else
      match splitRows text with
      | [] => [[c]]
      | row :: rows => (c :: row) :: rows

/-- The rows of a text as a display shows them: a break at the very end opens no
further row. -/
def rows (text : Text) : List Text :=
  let pieces := splitRows text
  if pieces.getLast? = some [] then pieces.dropLast else pieces

end LookML.Text
