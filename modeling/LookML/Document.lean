import LookML.Block

/-!
# Documents

A document is a sequence of top-level declarations with loose text between them.
A declaration holds fields and other content.  Fields and declarations keep their
source lines; names, properties and nested blocks are read from those.
-/

namespace LookML

/-- The kinds of top-level declaration. -/
inductive DeclarationKind where
  | view
  | explore
  | model
  | datagroup
  | other
  deriving Repr, DecidableEq

namespace DeclarationKind

def word : DeclarationKind → String
  | view => "view"
  | explore => "explore"
  | model => "model"
  | datagroup => "datagroup"
  | other => "other"

def all : List DeclarationKind :=
  [view, explore, model, datagroup, other]

/-- The kind a word stands for. -/
def ofWord? (word : Text) : Option DeclarationKind :=
  all.find? fun kind => kind.word.toList = word

/-- The kind of a block type; unknown types are `other`. -/
def ofType (type : Text) : DeclarationKind :=
  (ofWord? type).getD other

end DeclarationKind

inductive FieldKind where
  | dimension
  | dimensionGroup
  | measure
  | filter
  | parameter
  | other
  deriving Repr, DecidableEq

namespace FieldKind

def word : FieldKind → String
  | dimension => "dimension"
  | dimensionGroup => "dimension_group"
  | measure => "measure"
  | filter => "filter"
  | parameter => "parameter"
  | other => "other"

def all : List FieldKind :=
  [dimension, dimensionGroup, measure, filter, parameter, other]

/-- The kind a word stands for. -/
def ofWord? (word : Text) : Option FieldKind :=
  all.find? fun kind => kind.word.toList = word

/-- The kind of a block type; unknown types are `other`. -/
def ofType (type : Text) : FieldKind :=
  (ofWord? type).getD other

/-- The name of the collection of fields of this kind. -/
def collection (kind : FieldKind) : Text :=
  kind.word.toList ++ ['s']

/-- Whether blocks of a type are fields where fields are expected. -/
def isFieldType (type : Text) : Bool :=
  ofType type != other

end FieldKind

/-- A block around a field: its type and name as far as they can be read, and its
depth. -/
structure Enclosing where
  type : Option Text
  name : Option Text
  depth : Nat
  deriving Repr, DecidableEq

/-- A field of a declaration.  The comments directly above it belong to it and
move with it. -/
structure Field where
  parent : Enclosing
  comments : List Line := []
  opening : Line
  inner : List Line := []
  closing : Option Line := none
  deriving Repr, DecidableEq

namespace Field

/-- The lines from the header to the closing brace. -/
def lines (field : Field) : List Line :=
  field.opening :: field.inner ++ field.closing.toList

/-- The block type as written. -/
def typeName (field : Field) : Text :=
  field.opening.shape.key?.getD []

def name (field : Field) : Text :=
  field.opening.shape.name?.getD []

def kind (field : Field) : FieldKind :=
  .ofType field.typeName

def depth (field : Field) : Nat :=
  field.opening.depth

def body (field : Field) : Body :=
  .ofLines (field.depth + 1) field.inner

def get? (field : Field) (key : Text) : Option Text :=
  field.body.properties.get? key

def startLine (field : Field) : Nat :=
  field.opening.number

/-- The line of the closing brace. -/
def endLine (field : Field) : Option Nat :=
  field.closing.map (·.number)

def lastLine (field : Field) : Nat :=
  ((field.lines.getLast?).map (·.number)).getD field.startLine

/-- Whether the field stands in a block of a type. -/
def isInside (field : Field) (type : Text) : Bool :=
  field.parent.type = some type

/-- Whether the field is marked as a primary key. -/
def isPrimaryKey (field : Field) : Bool :=
  let value := (Text.trim ((field.get? "primary_key".toList).getD [])).map Char.toLower
  value == "yes".toList || value == "true".toList

end Field

/-- A top-level declaration.  A declaration on one line has that line as header
and footer; an unterminated one has no footer.  `content` holds the lines that
belong to no field, `trailing` the comments after the last field. -/
structure Declaration where
  header : Line
  footer : Option Line := none
  content : List Line := []
  fields : List Field := []
  trailing : List Line := []
  deriving Repr, DecidableEq

namespace Declaration

/-- The block type as written. -/
def typeName (declaration : Declaration) : Text :=
  declaration.header.shape.key?.getD []

def name (declaration : Declaration) : Text :=
  declaration.header.shape.name?.getD []

def kind (declaration : Declaration) : DeclarationKind :=
  .ofType declaration.typeName

def childDepth (declaration : Declaration) : Nat :=
  declaration.header.depth + 1

/-- The properties and the blocks other than fields. -/
def body (declaration : Declaration) : Body :=
  .ofLines declaration.childDepth declaration.content

def get? (declaration : Declaration) (key : Text) : Option Text :=
  declaration.body.properties.get? key

def startLine (declaration : Declaration) : Nat :=
  declaration.header.number

/-- The line of the closing brace. -/
def endLine (declaration : Declaration) : Option Nat :=
  declaration.footer.map (·.number)

def fieldsOf (declaration : Declaration) (kind : FieldKind) : List Field :=
  declaration.fields.filter fun field => field.kind = kind

/-- The first field of a name. -/
def field? (declaration : Declaration) (name : Text) : Option Field :=
  declaration.fields.find? fun field => field.name = name

def blocksOf (declaration : Declaration) (type : Text) : List Block :=
  declaration.body.blocks.filter fun block => block.type = some type

/-- The first direct block of a type. -/
def firstBlock? (declaration : Declaration) (type : Text) : Option Block :=
  (declaration.blocksOf type).head?

end Declaration

/-- A part of a document. -/
inductive Item where
  | loose (lines : List Line)
  | declaration (declaration : Declaration)
  deriving Repr, DecidableEq

namespace Item

/-- The declaration a part is. -/
def declaration? : Item → Option Declaration
  | loose _ => none
  | declaration found => some found

end Item

/-- A document: its parts in source order, its anomalies, and the values of the
top-level `include` and `connection` properties. -/
structure Document where
  items : List Item := []
  anomalies : List Anomaly := []
  includes : List Text := []
  connection : Option Text := none
  lineCount : Nat := 0
  deriving Repr, DecidableEq

namespace Document

/-- Whether the document has anomalies. -/
def degraded (document : Document) : Bool :=
  !document.anomalies.isEmpty

/-- Whether the block structure cannot be trusted. -/
def nestingBroken (document : Document) : Bool :=
  document.anomalies.any (·.kind.breaksNesting)

def declarations (document : Document) : List Declaration :=
  document.items.filterMap Item.declaration?

def declarationsOf (document : Document) (kind : DeclarationKind) : List Declaration :=
  document.declarations.filter fun declaration => declaration.kind = kind

/-- The first view of a name. -/
def view? (document : Document) (name : Text) : Option Declaration :=
  (document.declarationsOf .view).find? fun view => view.name = name

end Document

end LookML
