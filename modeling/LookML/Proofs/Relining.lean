import LookML.Lint.Rule
import LookML.Lint.Structural
import LookML.Proofs.Blank
import LookML.Proofs.Relabelling
import LookML.Proofs.Scopes

/-!
# Lint models under other line numbers

What the linter finds depends on the lines of a text through what they say and in which order
they stand.  Under other line numbers, and without the blanks around their texts, lines give the
same lint model and break the same rules, with the new numbers in the place of the old ones.
-/

namespace LookML

open Text Code List

/-- A change of labels that keeps what lines say: they get other numbers, and their texts may
lose the blanks around them. -/
structure Line.Renumbers (row : Nat → Nat) (relabel : Line → Line) : Prop extends
    Line.Relabels relabel where
  shape : ∀ line, (relabel line).shape = line.shape
  number : ∀ line, (relabel line).number = row line.number
  stripped : ∀ line, (relabel line).stripped = line.stripped

mutual

/-- A block whose lines have other numbers. -/
def Block.renumber (row : Nat → Nat) : Block → Block
  | ⟨type, name, properties, blocks, startLine, endLine⟩ =>
    ⟨type, name, properties, renumberAll row blocks, row startLine, endLine.map row⟩

/-- Blocks whose lines have other numbers. -/
def Block.renumberAll (row : Nat → Nat) : List Block → List Block
  | [] => []
  | block :: blocks => block.renumber row :: renumberAll row blocks

end

/-- A child of a block whose lines have other numbers. -/
def Member.renumber (row : Nat → Nat) : Member → Member
  | .property key value => .property key value
  | .block inner => .block (inner.renumber row)

section Bodies

variable (row : Nat → Nat)

theorem Block.renumberAll_eq (blocks : List Block) :
    renumberAll row blocks = blocks.map (renumber row) := by
  induction blocks with
  | nil => rfl
  | cons block blocks ih => rw [renumberAll, ih, map_cons]

@[simp] theorem Block.type_renumber (block : Block) : (block.renumber row).type = block.type := by
  cases block
  rw [renumber]

@[simp] theorem Block.name_renumber (block : Block) : (block.renumber row).name = block.name := by
  cases block
  rw [renumber]

@[simp] theorem Block.properties_renumber (block : Block) :
    (block.renumber row).properties = block.properties := by
  cases block
  rw [renumber]

@[simp] theorem Block.startLine_renumber (block : Block) :
    (block.renumber row).startLine = row block.startLine := by
  cases block
  rw [renumber]

@[simp] theorem Block.blocks_renumber (block : Block) :
    (block.renumber row).blocks = block.blocks.map (renumber row) := by
  cases block
  rw [renumber, renumberAll_eq]

theorem Block.filter_type_renumber (type : Text) (blocks : List Block) :
    (blocks.map (renumber row)).filter (fun block => block.type = some type) =
      (blocks.filter fun block => block.type = some type).map (renumber row) := by
  have same : (fun block : Block => decide (block.type = some type)) ∘ renumber row =
      fun block => decide (block.type = some type) :=
    funext fun block => by simp
  rw [filter_map, same]

theorem Member.properties_renumber (members : List Member) :
    (members.map (renumber row)).filterMap property? =
      members.filterMap property? := by
  rw [filterMap_map]
  apply filterMap_congr
  intro member _
  cases member <;> rfl

theorem Member.blocks_renumber (members : List Member) :
    (members.map (renumber row)).filterMap block? =
      (members.filterMap block?).map (Block.renumber row) := by
  rw [filterMap_map, map_filterMap]
  apply filterMap_congr
  intro member _
  cases member <;> rfl

variable {row} {relabel : Line → Line} (renumbers : Line.Renumbers row relabel)
include renumbers

theorem Segment.text_map (segment : Segment) : (segment.map relabel).text = segment.text := by
  have stripped : Line.stripped ∘ relabel = Line.stripped := funext renumbers.stripped
  have closing (line : Line) : stripTerminator (relabel line).text = stripTerminator line.text := by
    have same : trim (relabel line).text = trim line.text := renumbers.stripped line
    rw [stripTerminator, stripTerminator, same]
  have value := value_map (renumbers.shape segment.opening)
  rw [text, value]
  cases last : segment.closing with
  | none => simp [text, map, stripped, last]
  | some line => simp [text, map, stripped, last, closing]

/-- The children of a block under other line numbers. -/
theorem Member.read_map (depth : Nat) (entries : List Entry) :
    read depth (entries.map (Entry.map relabel)) =
      (read depth entries).map (renumber row) := by
  induction depth, entries using read.induct with
  | case1 depth => simp [read]
  | case2 segment entries ih =>
    have depth : (segment.map relabel).depth = segment.depth := renumbers.depth segment.opening
    rw [map_cons, Entry.map, read, if_pos depth, Segment.text_map renumbers, ih,
      read, if_pos rfl]
    rfl
  | case3 depth segment entries elsewhere ih =>
    have other : ¬ (segment.map relabel).depth = depth := by
      rwa [show (segment.map relabel).depth = segment.depth from renumbers.depth segment.opening]
    rw [map_cons, Entry.map, read, if_neg other, ih, read, if_neg elsewhere]
  | case4 line entries key value shape ih =>
    rw [map_cons, Entry.map, read, if_pos (renumbers.depth line), renumbers.shape,
      read, if_pos rfl, shape]
    simp only [ih, map_cons]
    rfl
  | case5 line entries key name value shape ih =>
    rw [map_cons, Entry.map, read, if_pos (renumbers.depth line), renumbers.shape,
      renumbers.number, read, if_pos rfl, shape]
    simp only [ih, map_cons]
    rfl
  | case6 line entries key name shape cut inside behind =>
    -- The block is closed at the same entry, so both readings go on with the same two parts.
    rw [map_cons, Entry.map, read, if_pos (renumbers.depth line), renumbers.shape,
      renumbers.number, read, if_pos rfl, shape]
    simp only [Entry.cutAtClose_map renumbers.toRelabels, map_cons]
    have numbers : Line.number ∘ relabel = row ∘ Line.number := funext renumbers.number
    rw [inside, behind, properties_renumber, blocks_renumber, renumber,
      Block.renumber, Block.renumberAll_eq, Option.map_map, Option.map_map, numbers]
  | case7 line entries noProperty noInline noOpen ih =>
    rw [map_cons, read_of_childless noProperty noInline noOpen, ← ih]
    apply read_of_childless
    · simpa only [renumbers.shape] using noProperty
    · simpa only [renumbers.shape] using noInline
    · simpa only [renumbers.shape] using noOpen
  | case8 depth line entries elsewhere ih =>
    rw [map_cons, read_of_elsewhere elsewhere, ← ih]
    apply read_of_elsewhere
    rwa [renumbers.depth]

theorem Body.ofLines_map (depth : Nat) (lines : List Line) :
    ofLines depth (lines.map relabel) =
      { properties := (ofLines depth lines).properties
        blocks := (ofLines depth lines).blocks.map (Block.renumber row) } := by
  rw [ofLines, Entry.group_map renumbers.toRelabels, Member.read_map renumbers,
    Member.properties_renumber, Member.blocks_renumber]
  rfl

end Bodies

section Declarations

variable {row : Nat → Nat} {relabel : Line → Line} (renumbers : Line.Renumbers row relabel)
include renumbers

theorem Field.properties_map (field : Field) :
    (field.map relabel).body.properties = field.body.properties := by
  have depth : (field.map relabel).depth = field.depth := renumbers.depth field.opening
  have inner : (field.map relabel).inner = field.inner.map relabel := rfl
  rw [body, depth, inner, Body.ofLines_map renumbers]
  rfl

theorem Declaration.startLine_map (declaration : Declaration) :
    (declaration.map relabel).startLine = row declaration.startLine :=
  renumbers.number declaration.header

theorem Declaration.childDepth_map (declaration : Declaration) :
    (declaration.map relabel).childDepth = declaration.childDepth :=
  congrArg (· + 1) (renumbers.depth declaration.header)

theorem Declaration.body_map (declaration : Declaration) :
    (declaration.map relabel).body =
      { properties := declaration.body.properties
        blocks := declaration.body.blocks.map (Block.renumber row) } := by
  have content : (declaration.map relabel).content = declaration.content.map relabel := rfl
  rw [body, childDepth_map renumbers, content, Body.ofLines_map renumbers]
  rfl

theorem Document.declarations_map (lines : List Line) (anomalies others : List Anomaly) :
    (ofLexed ⟨lines.map relabel, others⟩).declarations =
      (ofLexed ⟨lines, anomalies⟩).declarations.map (Declaration.map relabel) := by
  have items : (ofLexed ⟨lines.map relabel, others⟩).items =
      (ofLexed ⟨lines, anomalies⟩).items.map (Item.map relabel) :=
    Outline.finish_foldl_map renumbers.toRelabels.retitles lines
  rw [declarations, declarations, items, filterMap_map, map_filterMap]
  apply filterMap_congr
  intro item _
  cases item <;> rfl

end Declarations

namespace Keyed

variable {α β : Type} (change : α → β)

/-- Other values under the same names. -/
def mapValues (entries : Keyed α) : Keyed β :=
  entries.map (Prod.map id change)

theorem values_mapValues (entries : Keyed α) :
    (entries.mapValues change).values = entries.values.map change := by
  simp [mapValues, values]

/-- Where names stay and values change, the first entries stay the first ones. -/
theorem ofOccurrences_map {γ δ : Type} {move : γ → δ} {name : γ → Text} {name' : δ → Text}
    {value : γ → α} {value' : δ → β} {change : α → β}
    (names : ∀ item, name' (move item) = name item)
    (changes : ∀ item, value' (move item) = change (value item)) (items : List γ) :
    ofOccurrences ((items.map move).map fun item => (name' item, value' item)) =
      (ofOccurrences (items.map fun item => (name item, value item))).mapValues change := by
  induction items with
  | nil => rfl
  | cons item items ih =>
    rw [map_cons, map_cons, names, changes, ofOccurrences, ih, mapValues, mapValues, filter_map]
    rfl

/-- First occurrences in two lists, one behind the other. -/
theorem ofOccurrences_append (first second : List (Text × α)) :
    ofOccurrences (first ++ second) = ofOccurrences first ++
      (ofOccurrences second).filter fun entry => entry.1 ∉ first.map Prod.fst := by
  induction first with
  | nil => simp [ofOccurrences]
  | cons entry first ih =>
    obtain ⟨key, value⟩ := entry
    rw [cons_append, ofOccurrences, ih, filter_append, filter_filter,
      ofOccurrences, cons_append]
    refine congrArg (fun rest => _ :: (_ ++ rest)) (filter_congr fun entry _ => ?_)
    simp only [map_cons, mem_cons, not_or, Bool.decide_and]

end Keyed

namespace Lint

section Places

variable (place : Option Int → Option Int)

/-- A field on another line. -/
def FieldSpec.reline (field : FieldSpec) : FieldSpec :=
  { field with line := place field.line }

/-- A derived table on another line. -/
def DerivedTable.reline (table : DerivedTable) : DerivedTable :=
  { table with line := place table.line }

/-- A view on other lines. -/
def ViewSpec.reline (view : ViewSpec) : ViewSpec :=
  { view with
    derivedTable := view.derivedTable.map (.reline place)
    dimensions := view.dimensions.mapValues (.reline place)
    dimensionGroups := view.dimensionGroups.mapValues (.reline place)
    measures := view.measures.mapValues (.reline place)
    filters := view.filters.mapValues (.reline place)
    parameters := view.parameters.mapValues (.reline place)
    line := place view.line }

/-- A join on another line. -/
def JoinSpec.reline (join : JoinSpec) : JoinSpec :=
  { join with line := place join.line }

/-- An explore on other lines. -/
def ExploreSpec.reline (explore : ExploreSpec) : ExploreSpec :=
  { explore with joins := explore.joins.mapValues (.reline place), line := place explore.line }

/-- A model block on another line. -/
def ModelSpec.reline (model : ModelSpec) : ModelSpec :=
  { model with line := place model.line }

/-- A lint model on other lines. -/
def Model.reline (model : Model) : Model where
  views := model.views.mapValues (.reline place)
  explores := model.explores.mapValues (.reline place)
  models := model.models.mapValues (.reline place)

/-- A violation on another line. -/
def Violation.reline (violation : Violation) : Violation :=
  { violation with line := place violation.line }

end Places

section Reading

variable {row : Nat → Nat} {relabel : Line → Line} {place : Option Int → Option Int}
  (renumbers : Line.Renumbers row relabel)
  (places : ∀ number : Nat, place (some (number : Int)) = some (row number : Int))
include renumbers places

theorem FieldSpec.ofField_map (field : Field) :
    ofField (field.map relabel) = (ofField field).reline place := by
  have startLine : (field.map relabel).startLine = row field.startLine :=
    renumbers.number field.opening
  simp only [ofField, reline, Field.isPrimaryKey, Field.get?,
    Field.properties_map renumbers, Field.name_map renumbers.toRelabels, startLine, places]

omit renumbers in
theorem DerivedTable.ofBlock_renumber (block : Block) :
    ofBlock (block.renumber row) = (ofBlock block).reline place := by
  have source (type : Text) : ((block.renumber row).firstBlock? type).bind (·.name) =
      (block.firstBlock? type).bind (·.name) := by
    rw [Block.firstBlock?, Block.blocksOf, Block.blocks_renumber, Block.filter_type_renumber,
      head?_map, Option.bind_map]
    simp only [Function.comp_def, Block.name_renumber]
    rfl
  simp only [ofBlock, reline, Block.get?, Block.properties_renumber,
    source, Block.startLine_renumber, places]

theorem ViewSpec.fieldsOf_map (declaration : Declaration) (kind : FieldKind) :
    fieldsOf (declaration.map relabel) kind =
      (fieldsOf declaration kind).mapValues (.reline place) := by
  have fields : (declaration.map relabel).fieldsOf kind =
      (declaration.fieldsOf kind).map (Field.map relabel) := by
    have same : (fun field : Field => decide (field.kind = kind)) ∘ Field.map relabel =
        fun field => decide (field.kind = kind) :=
      funext fun field => by simp [Field.kind_map renumbers.toRelabels]
    rw [Declaration.fieldsOf, Declaration.map, filter_map, same]
    rfl
  rw [fieldsOf, fields]
  exact Keyed.ofOccurrences_map (Field.name_map renumbers.toRelabels)
    (FieldSpec.ofField_map renumbers places) _

theorem ViewSpec.ofDeclaration_map (declaration : Declaration) :
    ofDeclaration (declaration.map relabel) =
      (ofDeclaration declaration).reline place := by
  have tables (type : Text) :
      ((declaration.map relabel).firstBlock? type).map DerivedTable.ofBlock =
        ((declaration.firstBlock? type).map DerivedTable.ofBlock).map (.reline place) := by
    rw [Declaration.firstBlock?, Declaration.blocksOf, Declaration.body_map renumbers,
      Block.filter_type_renumber, head?_map, Option.map_map, Option.map_map]
    exact congrArg (Option.map · _) (funext (DerivedTable.ofBlock_renumber places))
  simp only [ofDeclaration, reline, Declaration.get?,
    Declaration.body_map renumbers, Declaration.name_map renumbers.toRelabels, tables,
    fieldsOf_map renumbers places, Declaration.startLine_map renumbers, places]

omit renumbers in
theorem JoinSpec.ofBlock_renumber (block : Block) :
    ofBlock (block.renumber row) = (ofBlock block).reline place := by
  simp only [ofBlock, reline, Block.get?, Block.properties_renumber,
    Block.name_renumber, Block.startLine_renumber, places]

omit renumbers in
theorem ExploreSpec.ofBody_renumber (name : Text) (properties : Keyed Text) (blocks : List Block)
    (line : Nat) :
    ofBody name properties (blocks.map (Block.renumber row)) (row line) =
      (ofBody name properties blocks line).reline place := by
  have names (block : Block) : (block.renumber row).name.getD [] = block.name.getD [] := by
    rw [Block.name_renumber]
  have joins (found : List Block) :
      Keyed.ofOccurrences ((found.map (Block.renumber row)).map fun block =>
          (block.name.getD [], JoinSpec.ofBlock block)) =
        (Keyed.ofOccurrences (found.map fun block =>
          (block.name.getD [], JoinSpec.ofBlock block))).mapValues (.reline place) :=
    Keyed.ofOccurrences_map names (JoinSpec.ofBlock_renumber places) found
  simp only [ofBody, reline, Block.filter_type_renumber, places, joins]

theorem exploresOf_map (declaration : Declaration) :
    exploresOf (declaration.map relabel) = (exploresOf declaration).map (.reline place) := by
  unfold exploresOf
  rw [Declaration.kind_map renumbers.toRelabels]
  split
  · simp only [ExploreSpec.ofDeclaration, Declaration.body_map renumbers,
      Declaration.name_map renumbers.toRelabels, Declaration.startLine_map renumbers,
      ExploreSpec.ofBody_renumber places, map_cons, map_nil]
  · rw [Declaration.blocksOf, Declaration.body_map renumbers, Block.filter_type_renumber,
      map_map, map_map]
    apply map_congr_left
    intro block _
    simp only [Function.comp_apply, ExploreSpec.ofBlock, Block.name_renumber,
      Block.properties_renumber, Block.blocks_renumber, Block.startLine_renumber,
      ExploreSpec.ofBody_renumber places]
  · rfl

theorem ModelSpec.ofDeclaration_map (declaration : Declaration) :
    ofDeclaration (declaration.map relabel) =
      (ofDeclaration declaration).reline place := by
  have content : (declaration.map relabel).content = declaration.content.map relabel := rfl
  simp only [ofDeclaration, reline, Declaration.get?,
    Declaration.body_map renumbers, Declaration.name_map renumbers.toRelabels, content,
    Declaration.childDepth_map renumbers, Declaration.startLine_map renumbers, places,
    filterMap_map, Function.comp_def, renumbers.shape, renumbers.depth]

/-- The lint model of lines under other numbers. -/
theorem Model.ofDocument_map (lines : List Line) (anomalies others : List Anomaly) :
    ofDocument (.ofLexed ⟨lines.map relabel, others⟩) =
      (ofDocument (.ofLexed ⟨lines, anomalies⟩)).reline place := by
  have moved := Document.declarations_map renumbers lines anomalies others
  generalize Document.ofLexed ⟨lines, anomalies⟩ = document at moved ⊢
  generalize Document.ofLexed ⟨lines.map relabel, others⟩ = other at moved ⊢
  have ofKind (kind : DeclarationKind) :
      other.declarationsOf kind = (document.declarationsOf kind).map (Declaration.map relabel) := by
    have kinds :
        (fun declaration : Declaration => decide (declaration.kind = kind)) ∘
            Declaration.map relabel =
          fun declaration => decide (declaration.kind = kind) :=
      funext fun declaration => by simp [Declaration.kind_map renumbers.toRelabels]
    rw [Document.declarationsOf, moved, filter_map, kinds]
    rfl
  -- Explores come from two kinds of declaration and are moved one by one.
  have explores : other.declarations.flatMap exploresOf =
      (document.declarations.flatMap exploresOf).map (.reline place) := by
    rw [moved, flatMap_map, map_flatMap]
    exact flatMap_congr fun declaration _ => exploresOf_map renumbers places declaration
  have name := Declaration.name_map renumbers.toRelabels
  rw [ofDocument, ofKind, ofKind, explores, ofDocument, reline, mk.injEq]
  refine ⟨?_, ?_, ?_⟩
  · exact Keyed.ofOccurrences_map name (ViewSpec.ofDeclaration_map renumbers places) _
  · refine Keyed.ofOccurrences_map ?_ ?_ _
    · exact fun _ => rfl
    · exact fun _ => rfl
  · exact Keyed.ofOccurrences_map name (ModelSpec.ofDeclaration_map renumbers places) _

end Reading

section Rules

variable (place : Option Int → Option Int)

theorem ViewSpec.primaryKeys_reline (view : ViewSpec) :
    (view.reline place).dimensions.values.filter (·.primaryKey) =
      (view.dimensions.values.filter (·.primaryKey)).map (.reline place) := by
  rw [reline, Keyed.values_mapValues, filter_map]
  rfl

theorem primaryKeyViolations_reline (view : ViewSpec) :
    primaryKeyViolations (view.reline place) = (primaryKeyViolations view).map (.reline place) := by
  simp only [primaryKeyViolations, ViewSpec.primaryKeys_reline, isEmpty_map]
  split
  · rfl
  · rw [filter_map, map_map, map_map]
    rfl

theorem joinViolations_reline (explore : ExploreSpec) :
    joinViolations (explore.reline place) = (joinViolations explore).map (.reline place) := by
  rw [joinViolations, ExploreSpec.reline, Keyed.values_mapValues, joinViolations, flatMap_map,
    map_flatMap]
  simp only [map_map]
  rfl

theorem referenceViolations_reline (view : ViewSpec) :
    referenceViolations (view.reline place) = (referenceViolations view).map (.reline place) := by
  rw [referenceViolations, referenceViolations, map_flatMap]
  apply flatMap_congr
  intro collection member
  have fields : collection.2.2 (view.reline place) =
      (collection.2.2 view).mapValues (.reline place) := by
    simp only [referringCollections, mem_cons, not_mem_nil, or_false] at member
    rcases member with rfl | rfl | rfl | rfl <;> rfl
  dsimp only
  rw [fields, Keyed.values_mapValues, flatMap_map, map_flatMap]
  apply flatMap_congr
  intro field _
  rw [map_flatMap]
  apply flatMap_congr
  intro property member
  have value : property.2.1 (field.reline place) = property.2.1 field := by
    simp only [referringProperties, mem_cons, not_mem_nil, or_false] at member
    rcases member with rfl | rfl <;> rfl
  rw [value, map_map]
  rfl

theorem tableBackedViews_reline (model : Model) :
    tableBackedViews (model.reline place) = (tableBackedViews model).map (.reline place) := by
  have same : ViewSpec.isTableBacked ∘ ViewSpec.reline place = ViewSpec.isTableBacked :=
    funext fun view => by simp [ViewSpec.isTableBacked, ViewSpec.reline]
  rw [tableBackedViews, Model.reline, Keyed.values_mapValues, filter_map, same]
  rfl

/-- A model on other lines breaks the same rules, on these lines. -/
theorem applyRules_reline (enabled disabled : List Text) (severities : Keyed Severity)
    (model : Model) :
    applyRules enabled disabled severities (model.reline place) =
      (applyRules enabled disabled severities model).map (.reline place) := by
  rw [applyRules, applyRules, map_flatMap]
  apply flatMap_congr
  intro rule member
  have checks : rule.check (model.reline place) = (rule.check model).map (.reline place) := by
    have isRule : rule ∈ rules := (mem_filter.mp member).1
    simp only [rules, mem_cons, not_mem_nil, or_false] at isRule
    rcases isRule with rfl | rfl | rfl
    · dsimp only
      rw [tableBackedViews_reline, flatMap_map, map_flatMap]
      exact flatMap_congr fun view _ => primaryKeyViolations_reline place view
    · dsimp only
      rw [Model.reline, Keyed.values_mapValues, flatMap_map, map_flatMap]
      exact flatMap_congr fun explore _ => joinViolations_reline place explore
    · dsimp only
      rw [tableBackedViews_reline, flatMap_map, map_flatMap]
      exact flatMap_congr fun view _ => referenceViolations_reline place view
  rw [checks, map_map, map_map]
  rfl

end Rules

end Lint

end LookML
