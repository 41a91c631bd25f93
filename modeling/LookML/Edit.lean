import LookML.Text.Lines

/-!
# Edits

An edit replaces the text between two positions and leaves everything else as it
is, line breaks included.  Lines and columns are counted from zero.
-/

namespace LookML

/-- The number of characters before a line, each line but the first standing behind
a line feed.  Behind the last line there is the end of the text. -/
def Text.lineStart : Nat → Text → Nat
  | 0, _ => 0
  | _ + 1, [] => 0
  | line + 1, c :: text => lineStart (if c = '\n' then line else line + 1) text + 1

/-- A place in a text. -/
structure Position where
  line : Nat
  column : Nat
  deriving Repr, DecidableEq

/-- The number of characters before a place. -/
def Position.offset (position : Position) (text : Text) : Nat :=
  text.lineStart position.line + position.column

/-- The replacement of what stands between two positions. -/
structure Edit where
  start : Position
  stop : Position
  newText : Text
  deriving Repr, DecidableEq

namespace Edit

/-- The edit that replaces a whole text. -/
def whole (text newText : Text) : Edit where
  start := ⟨0, 0⟩
  stop := ⟨text.lines.length - 1, (text.lines.getLast?.getD []).length⟩
  newText := newText

def apply (edit : Edit) (text : Text) : Text :=
  text.take (edit.start.offset text) ++ edit.newText ++ text.drop (edit.stop.offset text)

/-- The text after edits made one after another. -/
def applyAll (edits : List Edit) (text : Text) : Text :=
  edits.foldl (fun text edit => edit.apply text) text

end Edit

end LookML
