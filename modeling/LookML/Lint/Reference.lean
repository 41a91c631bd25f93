import LookML.Code
import LookML.Text.Scan

/-!
# References in SQL

Bare references name a column by its table, as in `orders.id`; field references
stand in a substitution, as in `${orders.id}`.
-/

namespace LookML.Lint

open Text Code

/-- The length of a span that a text begins with: an opener through the next
closer. -/
def spanAt? (opener closer text : Text) : Option Nat := do
  let rest ← after? opener text
  let (body, _) ← cut? closer rest
  some (opener.length + body.length + closer.length)

/-- The text with every span between two marks replaced by a space. -/
def blankSpans (opener closer text : Text) : Text :=
  substitute (fun _ rest => (spanAt? opener closer rest).map fun taken => ([' '], taken)) text

/-- The text with substitutions and template tags blanked out. -/
def blankSubstitutions (text : Text) : Text :=
  blankSpans ['{', '%'] ['%', '}'] <|
    blankSpans ['{', '{'] ['}', '}'] <| blankSpans ['$', '{'] ['}'] text

/-- A bare reference of two or more identifiers joined by dots. -/
def bareReferenceAt? (before : Option Char) (text : Text) : Option (Text × Nat) :=
  let isPath := fun c => isWord c || c == '.'
  if before.any isPath then
    none
  else
    let parts := (split '.' (text.takeWhile isPath)).takeWhile fun part =>
      part.head?.any isIdentifierStart
    let reference := joinWith ['.'] parts
    if parts.length < 2 then none else some (reference, reference.length)

/-- The beginning of references that are functions and not columns. -/
def safeLead : Text := "safe.".toList

/-- The bare references outside substitutions, in order. -/
def bareReferences (sql : Text) : List Text :=
  (findAll bareReferenceAt? (blankSubstitutions sql)).filter fun reference =>
    !safeLead.isPrefixOf reference

/-- A reference `${view.field}`: its two names. -/
def fieldReferenceAt? (text : Text) : Option ((Text × Text) × Nat) := do
  let rest ← after? ['$', '{'] text
  let view := rest.takeWhile isWord
  let rest ← after? ['.'] (rest.dropWhile isWord)
  let field := rest.takeWhile isWord
  let _ ← after? ['}'] (rest.dropWhile isWord)
  if view.isEmpty ∨ field.isEmpty then none
  else some ((view, field), view.length + field.length + 4)

/-- The references to fields of views other than the given one and the table
itself, in order. -/
def crossViewReferences (view sql : Text) : List Text :=
  ((findAll (fun _ rest => fieldReferenceAt? rest) sql).filter fun reference =>
      reference.1 ≠ view && reference.1 ≠ "TABLE".toList).map
    fun reference => reference.1 ++ ['.'] ++ reference.2

end LookML.Lint
