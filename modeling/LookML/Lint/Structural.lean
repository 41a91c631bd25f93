import LookML.Document
import LookML.Lint.Model

/-!
# The lint model of a document

Where a name repeats, the first declaration, field or join of that name counts.
Explores inside a model block count beside those at the top level.
-/

namespace LookML.Lint

open Code

namespace FieldSpec

/-- A field of a document. -/
def ofField (field : Field) : FieldSpec :=
  let properties := field.body.properties
  { name := field.name
    type := properties.get? "type".toList
    sql := properties.get? "sql".toList
    html := properties.get? "html".toList
    primaryKey := field.isPrimaryKey
    label := (properties.get? "label".toList).map unquote
    description := (properties.get? "description".toList).map unquote
    line := some field.startLine }

end FieldSpec

namespace DerivedTable

/-- A block that derives a table. -/
def ofBlock (block : Block) : DerivedTable where
  sql := block.get? "sql".toList
  exploreSource := (block.firstBlock? "explore_source".toList).bind (·.name)
  line := some block.startLine

end DerivedTable

namespace ViewSpec

/-- The fields of a kind, keyed by name. -/
def fieldsOf (declaration : Declaration) (kind : FieldKind) : Keyed FieldSpec :=
  .ofOccurrences <| (declaration.fieldsOf kind).map fun field =>
    (field.name, FieldSpec.ofField field)

def ofDeclaration (declaration : Declaration) : ViewSpec where
  name := declaration.name
  sqlTableName := declaration.get? "sql_table_name".toList
  derivedTable := (declaration.firstBlock? "derived_table".toList).map DerivedTable.ofBlock
  dimensions := fieldsOf declaration .dimension
  dimensionGroups := fieldsOf declaration .dimensionGroup
  measures := fieldsOf declaration .measure
  filters := fieldsOf declaration .filter
  parameters := fieldsOf declaration .parameter
  line := some declaration.startLine

end ViewSpec

namespace JoinSpec

def ofBlock (block : Block) : JoinSpec where
  name := block.name.getD []
  sqlOn := block.get? "sql_on".toList
  relationship := block.get? "relationship".toList
  type := block.get? "type".toList
  viewLabel := (block.get? "view_label".toList).map unquote
  line := some block.startLine

end JoinSpec

namespace ExploreSpec

/-- An explore with the given body. -/
def ofBody (name : Text) (properties : Keyed Text) (blocks : List Block) (line : Nat) :
    ExploreSpec where
  name := name
  viewName := properties.get? "view_name".toList
  joins := .ofOccurrences <| (blocks.filter fun block => block.type = some "join".toList).map
    fun block => (block.name.getD [], JoinSpec.ofBlock block)
  line := some line

/-- An explore at the top level. -/
def ofDeclaration (declaration : Declaration) : ExploreSpec :=
  .ofBody declaration.name declaration.body.properties declaration.body.blocks
    declaration.startLine

/-- An explore inside a model. -/
def ofBlock (block : Block) : ExploreSpec :=
  .ofBody (block.name.getD []) block.properties block.blocks block.startLine

end ExploreSpec

namespace ModelSpec

/-- A model of a document. -/
def ofDeclaration (declaration : Declaration) : ModelSpec where
  name := declaration.name
  connection := (declaration.get? "connection".toList).map unquote
  includes := declaration.content.filterMap fun line =>
    match line.shape with
    | .property key value =>
      if key = "include".toList ∧ line.depth = declaration.childDepth then
        some (unquote (stripTerminator value))
      else
        none
    | _ => none
  line := some declaration.startLine

end ModelSpec

/-- The explores a declaration gives: itself, or those inside a model. -/
def exploresOf (declaration : Declaration) : List ExploreSpec :=
  match declaration.kind with
  | .explore => [.ofDeclaration declaration]
  | .model => (declaration.blocksOf "explore".toList).map ExploreSpec.ofBlock
  | _ => []

namespace Model

/-- The lint model of a document. -/
def ofDocument (document : Document) : Model where
  views := .ofOccurrences <| (document.declarationsOf .view).map fun declaration =>
    (declaration.name, ViewSpec.ofDeclaration declaration)
  explores := .ofOccurrences <| (document.declarations.flatMap exploresOf).map fun explore =>
    (explore.name, explore)
  models := .ofOccurrences <| (document.declarationsOf .model).map fun declaration =>
    (declaration.name, ModelSpec.ofDeclaration declaration)

end Model

end LookML.Lint
