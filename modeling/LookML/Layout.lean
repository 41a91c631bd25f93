import LookML.Document.Builder
import LookML.Edit
import LookML.Settings
import LookML.Sql.Layout

/-!
# The layout of documents

Formatting reads a document, spaces its properties and headers, spells its SQL,
arranges the fields of every declaration in sections and writes it all out again.
A document whose nesting is broken is only indented and spaced line by line:
nothing moves, and segments stay as they are.
-/

namespace LookML

open Text Code

namespace Layout

/-- The spacing of a property: one space after the colon and one before the
terminator.  Any other line only loses the blanks around it. -/
def spaceProperty (line : Text) : Text :=
  let stripped := trim line
  match property? stripped with
  | none => stripped
  | some (key, value) =>
    let value := trim value
    let head := key ++ [':']
    match before? terminator value with
    | some content =>
      let content := trim content
      if content.isEmpty then head ++ [' '] ++ terminator
      else head ++ [' '] ++ content ++ [' '] ++ terminator
    | none => if value.isEmpty then head else head ++ [' '] ++ value

/-- The key and the name of a header, up to its brace. -/
def headerText (key name : Text) : Text :=
  if name.isEmpty then key ++ [':', ' '] else key ++ [':', ' '] ++ name ++ [' ']

/-- The spacing of the code of a block header. -/
def spaceOpenerCode (code : Text) : Text :=
  match blockOpen? code with
  | some (key, name) => headerText key name ++ ['{']
  | none =>
    match inlineBlock? code with
    | some (key, name, body) =>
      let block := if body.isEmpty then ['{', '}'] else ['{', ' '] ++ body ++ [' ', '}']
      let text := headerText key name ++ block
      if endsSegment code then text ++ [' '] ++ terminator else text
    | none =>
      match before? ['{'] code with
      | some lead => trimLeft (trimRight lead ++ [' ', '{'])
      | none => trimLeft code

/-- A text with the comment behind it. -/
def withComment (text : Text) : Option Text → Text
  | some comment => text ++ [' '] ++ comment
  | none => text

def spaceOpener (line : Text) : Text :=
  let parts := splitComment (trim line)
  withComment (spaceOpenerCode parts.1) parts.2

def spaceClose (line : Text) : Text :=
  let parts := splitComment (trim line)
  withComment (if endsSegment parts.1 then ['}', ' '] ++ terminator else ['}']) parts.2

/-- Lines with runs of empty lines reduced to one; `started` tells whether a line
was written already, and `gap` whether empty lines wait. -/
def collapseFrom (started gap : Bool) : List Text → List Text
  | [] => []
  | line :: lines =>
    if line.isEmpty then
      collapseFrom started true lines
    else if started && gap then
      [] :: line :: collapseFrom true false lines
    else
      line :: collapseFrom true false lines

/-- Lines with runs of empty lines reduced to one, and none at either end. -/
def collapseBlankLines (lines : List Text) : List Text :=
  collapseFrom false false lines

end Layout

namespace FormatSettings

/-- How a segment of a property is laid out. -/
def style (settings : FormatSettings) (property : Text) : Sql.Style where
  unit := settings.indentUnit
  markup := settings.markupProperties.contains property

/-- A line by itself, indented and spaced. -/
def line (settings : FormatSettings) (line : Line) : Text :=
  settings.indent line.indentDepth ++
    match line.shape with
    | .blockOpen .. | .inlineBlock .. => Layout.spaceOpener line.text
    | .blockClose => Layout.spaceClose line.text
    | .property .. | .segmentOpen .. | .segmentInline .. => Layout.spaceProperty line.text
    | .blank | .comment | .segmentContent | .segmentClose | .content => line.stripped

/-- The lines of an entry.  Content, and comments where they are verbatim, only
lose the blanks at their end. -/
def entry (settings : FormatSettings) (verbatimComments : Bool) : Entry → List Text
  | .grouped segment => (settings.style segment.property).segmentLines segment
  | .single line =>
    match line.shape with
    | .blank => [[]]
    | .content => [trimRight line.text]
    | .comment =>
      if verbatimComments then [trimRight line.text] else [settings.line line]
    | _ => [settings.line line]

/-- Lines laid out, with their segments. -/
def lines (settings : FormatSettings) (verbatimComments : Bool) (lines : List Line) :
    List Text :=
  (Entry.group lines).flatMap (settings.entry verbatimComments)

/-- A field with the comments above it. -/
def field (settings : FormatSettings) (field : Field) : List Text :=
  settings.lines false field.comments ++ settings.lines false field.lines

/-- The chunks of a section: its fields one by one, or all of them between its
markers. -/
def chunks (settings : FormatSettings) (part : Section) : List (List Text) :=
  match part.markers? with
  | none => part.fields.map settings.field
  | some (first, last) =>
    let indent := settings.indent ((part.fields.head?.map Field.depth).getD 0)
    [(indent ++ first)
      :: part.fields.flatMap (fun field => [] :: settings.field field)
      ++ [indent ++ last]]

/-- A declaration: header, other content, sections of fields, the comments after
them, and the closing brace. -/
def declaration (settings : FormatSettings) (declaration : Declaration) : List Text :=
  match declaration.header.shape with
  | .inlineBlock .. => [settings.line declaration.header]
  | _ =>
    let sections := Section.arrange settings.groupFields settings.sortFields declaration.fields
    [settings.line declaration.header]
      ++ Layout.collapseBlankLines (settings.lines false declaration.content)
      ++ (sections.flatMap settings.chunks).flatMap (fun chunk => [] :: chunk)
      ++ (if declaration.trailing.isEmpty then []
          else [] :: Layout.collapseBlankLines (settings.lines false declaration.trailing))
      ++ declaration.footer.toList.map settings.line

/-- A part of a document. -/
def item (settings : FormatSettings) : Item → List Text
  | .loose lines => settings.lines true lines
  | .declaration declaration => settings.declaration declaration

def document (settings : FormatSettings) (document : Document) : List Text :=
  document.items.flatMap settings.item

/-- A line of a document whose nesting is broken. -/
def conservativeLine (settings : FormatSettings) (line : Line) : Text :=
  match line.shape with
  | .segmentContent | .segmentClose | .content => line.text
  | .blank => []
  | _ => settings.line line

/-- A text indented and spaced line by line. -/
def formatConservative (settings : FormatSettings) (text : Text) : Text :=
  joinLines ((Lexed.ofText settings.segmentProperties text).lines.map settings.conservativeLine)

def formatText (settings : FormatSettings) (text : Text) : Text :=
  if text.isEmpty then
    text
  else
    let document := Document.ofText settings.segmentProperties text
    if document.nestingBroken then
      settings.formatConservative text
    else
      joinLines (settings.document document)

/-- The edit that formats a text, unless it is formatted already. -/
def formatEdit? (settings : FormatSettings) (text : Text) : Option Edit :=
  let formatted := settings.formatText text
  if formatted = text then none else some (.whole text formatted)

end FormatSettings

end LookML
