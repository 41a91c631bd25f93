import LookML.Document
import LookML.Text.Fold

/-!
# Sections of fields

The fields of a declaration are arranged in a fixed sequence of categories, and
within a category by name where that is asked for.  A category can be framed by
marker comments; a comment with exactly the text of a marker is taken for one.
-/

namespace LookML

/-- The categories of fields, in the order in which they are written. -/
inductive Category where
  | filters
  | parameters
  | dimensions
  | measures
  | others
  deriving Repr, DecidableEq

namespace Category

def all : List Category :=
  [filters, parameters, dimensions, measures, others]

def title : Category → String
  | filters => "Filters"
  | parameters => "Parameters"
  | dimensions => "Dimensions"
  | measures => "Measures"
  | others => "Others"

/-- The category of a kind of field.  Dimension groups stand among the
dimensions. -/
def ofKind : FieldKind → Category
  | .filter => filters
  | .parameter => parameters
  | .dimension | .dimensionGroup => dimensions
  | .measure => measures
  | .other => others

/-- Whether a section of this category can be framed by markers. -/
def hasMarkers (category : Category) : Bool :=
  category != others

/-- The comment before a section. -/
def startMarker (category : Category) : Text :=
  "# ----- ".toList ++ category.title.toList ++ " -----".toList

/-- The comment after a section. -/
def endMarker (category : Category) : Text :=
  "# ----- End of ".toList ++ category.title.toList ++ " -----".toList

end Category

def isMarker (text : Text) : Bool :=
  (Category.all.filter Category.hasMarkers).any fun category =>
    Text.trim text == category.startMarker || Text.trim text == category.endMarker

/-- The order of names: without regard to case first, then by code point. -/
def nameLe (left right : Text) : Bool :=
  let foldedLeft := Text.fold left
  let foldedRight := Text.fold right
  if foldedLeft = foldedRight then Text.le left right else Text.le foldedLeft foldedRight

/-- A run of fields written together.  Fields in source order have no
category. -/
structure Section where
  category : Option Category
  fields : List Field
  marked : Bool
  deriving Repr, DecidableEq

namespace Section

/-- The comments before and after a section. -/
def markers? (group : Section) : Option (Text × Text) :=
  match group.category with
  | some category =>
    if group.marked then some (category.startMarker, category.endMarker) else none
  | none => none

def ofCategory (group sort : Bool) (fields : List Field) (category : Category) : Section :=
  let members := fields.filter fun field => Category.ofKind field.kind = category
  { category := some category
    fields := if sort then members.mergeSort fun a b => nameLe a.name b.name else members
    marked := group && category.hasMarkers }

/-- Arrange fields in sections, none of them empty.  With neither grouping nor
sorting there is one section in source order. -/
def arrange (group sort : Bool) (fields : List Field) : List Section :=
  if fields.isEmpty then []
  else if !group && !sort then [{ category := none, fields, marked := false }]
  else
    (Category.all.map (ofCategory group sort fields)).filter fun members =>
      !members.fields.isEmpty

end Section

end LookML
