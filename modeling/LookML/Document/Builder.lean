import LookML.Line.Lexer
import LookML.Section

/-!
# Building documents

Classified lines are taken in one by one.  At most one declaration is open at a
time, and in it at most one field.  A comment waits until the next line shows
whether it stands directly above a field.  Whatever was opened stays in the
document, also when the text ends early.
-/

namespace LookML

open Code

/-- A field whose closing brace has not been read. -/
structure OpenField where
  comments : List Line
  opening : Line
  inner : List Line := []
  deriving Repr, DecidableEq

namespace OpenField

/-- The field with the closing line that was found. -/
def close (field : OpenField) (parent : Enclosing) (closing : Option Line) : Field where
  parent := parent
  comments := field.comments
  opening := field.opening
  inner := field.inner
  closing := closing

/-- Whether a line is the closing brace of the field. -/
def isClosedBy (field : OpenField) (line : Line) : Bool :=
  line.shape = .blockClose && line.depth = field.opening.depth + 1

end OpenField

/-- A declaration whose closing brace has not been read.  `waiting` holds comments
that a field may follow. -/
structure OpenDeclaration where
  header : Line
  content : List Line := []
  fields : List Field := []
  waiting : List Line := []
  field : Option OpenField := none
  deriving Repr, DecidableEq

namespace OpenDeclaration

/-- The declaration as the block around its fields. -/
def parent (declaration : OpenDeclaration) : Enclosing where
  type := declaration.header.shape.key?
  name := declaration.header.shape.name?
  depth := declaration.header.depth

def childDepth (declaration : OpenDeclaration) : Nat :=
  declaration.header.depth + 1

/-- Whether a line opens a field.  A header without a name does not. -/
def opensField (line : Line) : Bool :=
  match line.shape with
  | .blockOpen (some key) (some name) => FieldKind.isFieldType key && !name.isEmpty
  | _ => false

/-- The declaration with a line of other content, before which waiting comments
take their place. -/
def keep (declaration : OpenDeclaration) (line : Line) : OpenDeclaration :=
  { declaration with
    content := declaration.content ++ declaration.waiting ++ [line]
    waiting := [] }

/-- Whether a content line can be part of the comments after the last field. -/
def isTailLine (declaration : OpenDeclaration) (lastField : Nat) (line : Line) : Bool :=
  lastField < line.number && line.depth = declaration.childDepth
    && (line.shape = .comment || line.shape = .blank)

/-- The content cut into what stays and the comments after the last field, from
the first of these comments on. -/
def cutTail (declaration : OpenDeclaration) : List Line × List Line :=
  match declaration.fields.getLast? with
  | none => (declaration.content, [])
  | some field =>
    let reversed := declaration.content.reverse
    let tail := (reversed.takeWhile (declaration.isTailLine field.lastLine)).reverse
    if tail.any fun line => line.shape = .comment then
      ((reversed.dropWhile (declaration.isTailLine field.lastLine)).reverse,
        tail.dropWhile fun line => line.shape = .blank)
    else
      (declaration.content, [])

/-- The declaration ended by its closing brace. -/
def close (declaration : OpenDeclaration) (footer : Line) : Declaration :=
  { header := declaration.header
    footer := some footer
    content := declaration.cutTail.1
    fields := declaration.fields
    trailing := declaration.cutTail.2 ++ declaration.waiting }

/-- The declaration as far as it goes when the text ends. -/
def abandon (declaration : OpenDeclaration) : Declaration where
  header := declaration.header
  content := declaration.content ++ declaration.waiting
  fields := declaration.fields
    ++ declaration.field.toList.map fun field => field.close declaration.parent none

/-- Take in a line: the declaration goes on, or it is complete. -/
def add (declaration : OpenDeclaration) (line : Line) :
    OpenDeclaration ⊕ Declaration :=
  match declaration.field with
  | some field =>
    if field.isClosedBy line then
      .inl { declaration with
        fields := declaration.fields ++ [field.close declaration.parent (some line)]
        field := none }
    else
      .inl { declaration with field := some { field with inner := field.inner ++ [line] } }
  | none =>
    if line.depth ≠ declaration.childDepth then
      .inl (declaration.keep line)
    else if line.shape = .blockClose then
      .inr (declaration.close line)
    else if line.shape = .comment then
      if isMarker line.text then
        .inl declaration
      else
        .inl { declaration with waiting := declaration.waiting ++ [line] }
    else if opensField line then
      .inl { declaration with
        field := some { comments := declaration.waiting, opening := line }
        waiting := [] }
    else
      .inl (declaration.keep line)

end OpenDeclaration

/-- The parts of a document read so far, the loose lines since the last of them,
and the declaration that is open. -/
structure Outline where
  items : List Item := []
  loose : List Line := []
  declaration : Option OpenDeclaration := none
  deriving Repr, DecidableEq

namespace Outline

/-- The parts with the loose lines behind them. -/
def settled (outline : Outline) : List Item :=
  if outline.loose.isEmpty then outline.items else outline.items ++ [.loose outline.loose]

def add (outline : Outline) (line : Line) : Outline :=
  match outline.declaration with
  | some declaration =>
    match declaration.add line with
    | .inl more => { outline with declaration := some more }
    | .inr complete =>
      { outline with
        items := outline.items ++ [.declaration complete]
        declaration := none }
  | none =>
    if line.depth = 0 then
      match line.shape with
      | .blockOpen .. =>
        { items := outline.settled, declaration := some { header := line } }
      | .inlineBlock .. =>
        { items := outline.settled ++ [.declaration { header := line, footer := some line }] }
      | _ => { outline with loose := outline.loose ++ [line] }
    else
      { outline with loose := outline.loose ++ [line] }

/-- All parts of the document when the text ends. -/
def finish (outline : Outline) : List Item :=
  match outline.declaration with
  | some declaration => outline.items ++ [.declaration declaration.abandon]
  | none => outline.settled

end Outline

namespace Document

def topLevelValues (lines : List Line) (key : Text) : List Text :=
  lines.filterMap fun line =>
    match line.shape with
    | .property found value =>
      if line.depth = 0 ∧ found = key then some (unquote (stripTerminator value)) else none
    | _ => none

def ofLexed (lexed : Lexed) : Document where
  items := (lexed.lines.foldl Outline.add {}).finish
  anomalies := lexed.anomalies
  includes := topLevelValues lexed.lines "include".toList
  connection := (topLevelValues lexed.lines "connection".toList).head?
  lineCount := lexed.lines.length

/-- The document of a text, given the properties that open segments. -/
def ofText (segmentProperties : List Text) (text : Text) : Document :=
  ofLexed (.ofText segmentProperties text)

end Document

end LookML
