import LookML.Code
import LookML.Text.Lines
import LookML.Text.Scan

/-!
# Finding the line of a path

The path of a violation leads to a line by the headers along it: first the one of
the declaration, then, from there on, the one of the field or join.  Where names
repeat the line can be another one of that name.
-/

namespace LookML.Lint

open Text

/-- What a reader gives behind some of the blanks that a text begins with, as many
of them as possible. -/
def behindBlanks? {α : Type} (read : Text → Option α) : Text → Option α
  | [] => read []
  | c :: text =>
    if isBlank c then
      match behindBlanks? read text with
      | some result => some result
      | none => read (c :: text)
    else
      read (c :: text)

/-- What follows the header `type: name {` that a text begins with. -/
def afterHeader? (type name text : Text) : Option Text := do
  let rest ← after? type text
  let rest ← after? [':'] (trimLeft rest)
  behindBlanks? (fun rest => (after? name rest).bind fun rest => after? ['{'] (trimLeft rest))
    rest

/-- The first header of a block in a line: its column and its length.  Where
`whole` is asked for, the type does not continue a word. -/
def headerIn? (whole : Bool) (type name line : Text) : Option (Nat × Nat) :=
  search
    (fun before rest =>
      if whole && before.any isWord then none
      else (afterHeader? type name rest).map fun tail => rest.length - tail.length)
    line

/-- The block type of the members of a collection of declarations. -/
def declarationType? (collection : Text) : Option Text :=
  [("views".toList, "view".toList), ("explores".toList, "explore".toList),
    ("models".toList, "model".toList)].lookup collection

/-- The block type of the members of a collection inside a declaration. -/
def nestedType? (collection : Text) : Option Text :=
  [("dimensions".toList, "dimension".toList),
    ("dimension_groups".toList, "dimension_group".toList),
    ("measures".toList, "measure".toList), ("filters".toList, "filter".toList),
    ("parameters".toList, "parameter".toList), ("joins".toList, "join".toList)].lookup
    collection

/-- The types and names of the headers along a path, outermost first. -/
def pathHeaders : List Text → List (Text × Text)
  | collection :: name :: rest =>
    match declarationType? collection with
    | none => []
    | some type =>
      (type, name) ::
        match rest with
        | inner :: innerName :: _ =>
          match nestedType? inner with
          | some innerType => [(innerType, innerName)]
          | none => []
        | _ => []
  | _ => []

/-- The first line from a number on that a test accepts, with its result. -/
def findLine? {α : Type} (test : Text → Option α) (start : Nat) (lines : List Text) :
    Option (Nat × α) :=
  go start (lines.drop start)
where
  /-- Look through lines numbered from `number` on. -/
  go (number : Nat) : List Text → Option (Nat × α)
    | [] => none
    | line :: lines =>
      match test line with
      | some result => some (number, result)
      | none => go (number + 1) lines

/-- The line of the last header that is found, each of them searched for behind the
one before. -/
def followHeaders (lines : List Text) : Option Nat → Nat → List (Text × Text) → Option Nat
  | found, _, [] => found
  | found, start, (type, name) :: headers =>
    match findLine? (headerIn? true type name) start lines with
    | some (number, _) => followHeaders lines (some number) (number + 1) headers
    | none => found

/-- The line that a path leads to, or the first line. -/
def lineOfPath (text : Text) (path : List Text) : Nat :=
  (followHeaders text.lines none 0 (pathHeaders path)).getD 0

end LookML.Lint
