import LookML.Keyed

/-!
# The lint model

What the rules look at: views, explores and models keyed by name, in whatever way
they were read.  A line is known only where the reader keeps track of lines.
-/

namespace LookML.Lint

structure FieldSpec where
  name : Text
  type : Option Text := none
  sql : Option Text := none
  html : Option Text := none
  primaryKey : Bool := false
  label : Option Text := none
  description : Option Text := none
  line : Option Int := none
  deriving Repr, DecidableEq

/-- The table a view derives from a query. -/
structure DerivedTable where
  sql : Option Text := none
  exploreSource : Option Text := none
  line : Option Int := none
  deriving Repr, DecidableEq

/-- A view with its fields by kind. -/
structure ViewSpec where
  name : Text
  sqlTableName : Option Text := none
  derivedTable : Option DerivedTable := none
  dimensions : Keyed FieldSpec := []
  dimensionGroups : Keyed FieldSpec := []
  measures : Keyed FieldSpec := []
  filters : Keyed FieldSpec := []
  parameters : Keyed FieldSpec := []
  line : Option Int := none
  deriving Repr, DecidableEq

namespace ViewSpec

/-- Whether the view names a table or derives one. -/
def isTableBacked (view : ViewSpec) : Bool :=
  !(view.sqlTableName.getD []).isEmpty || view.derivedTable.isSome

end ViewSpec

/-- A join of an explore. -/
structure JoinSpec where
  name : Text
  sqlOn : Option Text := none
  relationship : Option Text := none
  type : Option Text := none
  viewLabel : Option Text := none
  line : Option Int := none
  deriving Repr, DecidableEq

/-- An explore with its joins. -/
structure ExploreSpec where
  name : Text
  viewName : Option Text := none
  joins : Keyed JoinSpec := []
  line : Option Int := none
  deriving Repr, DecidableEq

structure ModelSpec where
  name : Text
  connection : Option Text := none
  includes : List Text := []
  line : Option Int := none
  deriving Repr, DecidableEq

/-- All that rules look at in one document. -/
structure Model where
  views : Keyed ViewSpec := []
  explores : Keyed ExploreSpec := []
  models : Keyed ModelSpec := []
  deriving Repr, DecidableEq

end LookML.Lint
