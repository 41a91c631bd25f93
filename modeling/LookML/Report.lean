import LookML.Text.Decimal

/-!
# Reports

A report names what is wrong and, where it is known, the place: file, line and
column counted from one, with the lines that lead up to it and a mark below the
last one.
-/

namespace LookML

open Text

/-- A place in a file, with the lines that lead up to it. -/
structure Place where
  file : Text
  line : Int
  column : Int
  snippet : Option Text := none
  deriving Repr, DecidableEq

namespace Place

/-- The number of snippet lines before the one of the place. -/
def leadingLines : Int := 2

/-- A line of a snippet with its number, and the mark below the line of the
place. -/
def snippetLine (place : Place) (number : Int) (line : Text) : List Text :=
  let lead := padLeft ' ' 4 (ofInt number) ++ " | ".toList
  let mark := List.replicate ((lead.length : Int) + place.column - 1).toNat ' ' ++ "^^^".toList
  (lead ++ line) :: if number = place.line then [mark] else []

def snippetLines (place : Place) (snippet : Text) : List Text :=
  let first := max 1 (place.line - leadingLines)
  (split '\n' snippet).zipIdx.flatMap fun (line, index) =>
    place.snippetLine (first + index) line

/-- The place, with its snippet if that is not empty. -/
def text (place : Place) : Text :=
  let location :=
    place.file ++ [':'] ++ ofInt place.line ++ [':'] ++ ofInt place.column
  match place.snippet with
  | none | some [] => location
  | some snippet => location ++ ['\n'] ++ joinWith ['\n'] (place.snippetLines snippet)

end Place

/-- What is wrong, and where. -/
structure Report where
  message : Text
  place : Option Place := none
  deriving Repr, DecidableEq

namespace Report

/-- A report on a file.  A line and a column make a place, unless one of them is
zero; otherwise the message names the file. -/
def ofFile (message : Text) (file : Option Text) (line column : Option Int)
    (snippet : Option Text) : Report :=
  match file, line.filter (· ≠ 0), column.filter (· ≠ 0) with
  | some file, some line, some column =>
    { message, place := some { file, line, column, snippet } }
  | some file, _, _ => { message := file ++ ": ".toList ++ message }
  | none, _, _ => { message }

def text (report : Report) : Text :=
  match report.place with
  | some place => place.text ++ ['\n'] ++ report.message
  | none => report.message

end Report

end LookML
