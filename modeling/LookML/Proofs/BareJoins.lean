import Mathlib.Data.List.Flatten
import LookML.Proofs.MissingKey
import LookML.Proofs.Substitution

/-!
# Bare references in joins

A bare reference in the condition of a join is offered a substitution, at the first place from the
header of the join on where the reference is mentioned.  If that place is in the condition, and
nothing around it hides it from the rule, the violation is gone and all others stay.
-/

namespace LookML

open Text List

section Properties

variable {start place : Nat} {key value written : Text} {properties others : Keyed Text}
  (revalued : Forall₂ (Revalued start key value written place) properties others)
include revalued

theorem Revalued.get?_of_other {wanted : Text} (other : place ≠ start ∨ wanted ≠ key) :
    others.get? wanted = properties.get? wanted := by
  induction revalued with
  | nil => rfl
  | @cons property again rest rest' here _ ih =>
    obtain ⟨name, current⟩ := property
    rw [Keyed.get?, Keyed.get?] at ih ⊢
    rw [Revalued] at here
    split at here
    next both =>
      obtain ⟨same, rfl⟩ := here
      have different : (wanted == key) = false :=
        beq_eq_false_iff_ne.mpr (other.resolve_left fun elsewhere => elsewhere both.1)
      rw [same, lookup_cons, lookup_cons, different, ih]
    next =>
      rw [here, lookup_cons, lookup_cons, ih]

theorem Revalued.get?_here (here : place = start) :
    others.get? key = (properties.get? key).map (fun _ => written) ∧
      ∀ found ∈ properties.get? key, found = value := by
  induction revalued with
  | nil => exact ⟨rfl, fun found member => nomatch member⟩
  | @cons property again rest rest' first _ ih =>
    obtain ⟨name, current⟩ := property
    rw [Keyed.get?, Keyed.get?] at ih ⊢
    rw [Revalued] at first
    split at first
    next both =>
      obtain ⟨same, rfl⟩ := first
      rw [same, lookup_cons, lookup_cons, beq_self_eq_true]
      refine ⟨rfl, fun found member => ?_⟩
      cases member
      rfl
    next other =>
      have different : (key == name) = false :=
        beq_eq_false_iff_ne.mpr fun same => other ⟨here, same.symm⟩
      rw [first, lookup_cons, lookup_cons, different]
      exact ih

end Properties

section Alike

theorem Keyed.ofOccurrences_mapValues {α β : Type} (change : α → β) (entries : List (Text × α)) :
    ofOccurrences (entries.map (Prod.map id change)) =
      (ofOccurrences entries).mapValues change := by
  have mapped := @Keyed.ofOccurrences_map α β _ _ (Prod.map id change) Prod.fst Prod.fst Prod.snd
    Prod.snd change (fun _ => rfl) (fun _ => rfl) entries
  rw [show (fun entry : Text × β => (entry.1, entry.2)) = id from rfl, map_id] at mapped
  rw [mapped, show (fun entry : Text × α => (entry.1, entry.2)) = id from rfl, map_id]

theorem map_eq_of_forall₂ {α β γ : Type} {related : α → β → Prop} {first : α → γ} {second : β → γ}
    {items : List α} {others : List β} (all : Forall₂ related items others)
    (same : ∀ item other, related item other → second other = first item) :
    others.map second = items.map first := by
  induction all with
  | nil => rfl
  | cons here _ ih => rw [map_cons, map_cons, same _ _ here, ih]

theorem Block.Resembles.blocksOf {keeps : Nat → Text × Text → Text × Text → Prop}
    {blocks others : List Block} (alike : Forall₂ (Block.Resembles keeps) blocks others)
    (type : Text) :
    Forall₂ (Block.Resembles keeps) (blocks.filter fun block => block.type = some type)
      (others.filter fun block => block.type = some type) := by
  refine rel_filter (fun block again resembles => ?_) alike
  obtain ⟨sameType, -⟩ := resembles
  simp [sameType]

end Alike

namespace Lint

/-- The line of a header as violations give it. -/
def linePlace (number : Nat) : Option Int :=
  some (number : Int)

/-- A join whose condition is written anew if it stands on a line. -/
def JoinSpec.mend (start : Nat) (written : Text) (join : JoinSpec) : JoinSpec :=
  if join.line = linePlace start then
    { join with sqlOn := join.sqlOn.map fun _ => written }
  else join

/-- An explore in which the condition of the join on a line is written anew. -/
def ExploreSpec.mend (start : Nat) (written : Text) (explore : ExploreSpec) : ExploreSpec :=
  { explore with joins := explore.joins.mapValues (.mend start written) }

section Specs

variable {start : Nat} {value written : Text}

theorem DerivedTable.ofBlock_resembles {block again : Block}
    (alike : block.Resembles (Revalued start "sql_on".toList value written) again) :
    ofBlock again = ofBlock block := by
  obtain ⟨-, -, startLine, -, properties, blocks⟩ := alike
  have sql : again.get? "sql".toList = block.get? "sql".toList :=
    Revalued.get?_of_other properties (.inr (by decide))
  have source : (again.firstBlock? "explore_source".toList).bind (·.name) =
      (block.firstBlock? "explore_source".toList).bind (·.name) := by
    have sources := Block.Resembles.blocksOf blocks "explore_source".toList
    rw [Block.firstBlock?, Block.firstBlock?, Block.blocksOf, Block.blocksOf]
    generalize (block.blocks.filter _) = first, (again.blocks.filter _) = second at sources
    cases sources with
    | nil => rfl
    | cons here _ =>
      obtain ⟨-, name, -⟩ := here
      exact name
  rw [ofBlock, ofBlock, sql, source, startLine]

theorem JoinSpec.ofBlock_resembles {block again : Block}
    (alike : block.Resembles (Revalued start "sql_on".toList value written) again) :
    ofBlock again = (ofBlock block).mend start written := by
  obtain ⟨-, name, startLine, -, properties, -⟩ := alike
  have same (key : Text) (other : key ≠ "sql_on".toList) : again.get? key = block.get? key :=
    Revalued.get?_of_other properties (.inr other)
  have others : ofBlock again =
      { ofBlock block with sqlOn := again.get? "sql_on".toList } := by
    rw [ofBlock, ofBlock, name, startLine, same "relationship".toList (by decide),
      same "type".toList (by decide), same "view_label".toList (by decide)]
  rw [others, mend]
  split
  next here =>
    have isStart : block.startLine = start := Int.ofNat.inj (Option.some.inj here)
    rw [show again.get? "sql_on".toList = _ from (Revalued.get?_here properties isStart).1]
    rfl
  next elsewhere =>
    have notStart : block.startLine ≠ start := by
      rintro rfl
      exact elsewhere rfl
    rw [show again.get? "sql_on".toList = _ from
      Revalued.get?_of_other properties (.inl notStart)]
    rfl

/-- Joins with the same names, one of them mended. -/
theorem ExploreSpec.ofBody_resembles (name : Text) {properties others : Keyed Text}
    {blocks blocks' : List Block} {line : Nat}
    (revalued : Forall₂ (Revalued start "sql_on".toList value written line) properties others)
    (alike : Forall₂ (Block.Resembles (Revalued start "sql_on".toList value written)) blocks
      blocks') :
    ofBody name others blocks' line =
      (ofBody name properties blocks line).mend start written := by
  have viewName : others.get? "view_name".toList = properties.get? "view_name".toList :=
    Revalued.get?_of_other revalued (.inr (by decide))
  have joins : (blocks'.filter fun block => block.type = some "join".toList).map
        (fun block => (block.name.getD [], JoinSpec.ofBlock block)) =
      ((blocks.filter fun block => block.type = some "join".toList).map
        fun block => (block.name.getD [], JoinSpec.ofBlock block)).map
          (Prod.map id (.mend start written)) := by
    rw [map_map]
    refine map_eq_of_forall₂ (Block.Resembles.blocksOf alike "join".toList) ?_
    intro block again resembles
    have mended := JoinSpec.ofBlock_resembles resembles
    obtain ⟨-, sameName, -⟩ := resembles
    rw [Function.comp, sameName, mended]
    rfl
  rw [ofBody, ofBody, mend, viewName, joins, Keyed.ofOccurrences_mapValues]

end Specs

section Declarations

variable {start : Nat} {value written : Text} {rewrite : Line → Line}
  (rewrites : Line.Rewrites rewrite)
include rewrites

theorem FieldSpec.ofField_rewrite {field : Field}
    (alike : field.body.Resembles (Revalued start "sql_on".toList value written) field.startLine
      (field.map rewrite).body) :
    ofField (field.map rewrite) = ofField field := by
  have same (key : Text) (other : key ≠ "sql_on".toList) :
      (field.map rewrite).body.properties.get? key = field.body.properties.get? key :=
    Revalued.get?_of_other alike.properties (.inr other)
  have startLine : (field.map rewrite).startLine = field.startLine := rewrites.number _
  have primaryKey : (field.map rewrite).isPrimaryKey = field.isPrimaryKey := by
    rw [Field.isPrimaryKey, Field.get?, same "primary_key".toList (by decide)]
    rfl
  simp only [ofField, same "type".toList (by decide), same "sql".toList (by decide),
    same "html".toList (by decide), same "label".toList (by decide),
    same "description".toList (by decide), Field.name_map rewrites.toRelabels, startLine,
    primaryKey]

variable {declaration : Declaration}
  (alike : declaration.Resembles (Revalued start "sql_on".toList value written)
    (declaration.map rewrite))
include alike

theorem ViewSpec.fieldsOf_rewrite (kind : FieldKind) :
    fieldsOf (declaration.map rewrite) kind = fieldsOf declaration kind := by
  have sameKind : (fun field : Field => decide (field.kind = kind)) ∘ Field.map rewrite =
      fun field => decide (field.kind = kind) := by
    funext field
    rw [Function.comp, Field.kind_map rewrites.toRelabels]
  have bodies := forall₂_same.mp (forall₂_map_right_iff.mp alike.fields)
  rw [fieldsOf, fieldsOf, Declaration.fieldsOf, Declaration.map, filter_map, sameKind, map_map]
  refine congrArg Keyed.ofOccurrences (map_congr_left fun field member => ?_)
  rw [Function.comp, Field.name_map rewrites.toRelabels,
    FieldSpec.ofField_rewrite rewrites (bodies field (mem_of_mem_filter member))]

/-- No view looks at conditions of joins. -/
theorem ViewSpec.ofDeclaration_rewrite :
    ofDeclaration (declaration.map rewrite) = ofDeclaration declaration := by
  have name := Declaration.name_map rewrites.toRelabels declaration
  have startLine : (declaration.map rewrite).startLine = declaration.startLine :=
    rewrites.number _
  have table : (declaration.map rewrite).get? "sql_table_name".toList =
      declaration.get? "sql_table_name".toList :=
    Revalued.get?_of_other alike.body.properties (.inr (by decide))
  have derived : ((declaration.map rewrite).firstBlock? "derived_table".toList).map
        DerivedTable.ofBlock =
      (declaration.firstBlock? "derived_table".toList).map DerivedTable.ofBlock := by
    have tables := map_eq_of_forall₂
      (Block.Resembles.blocksOf alike.body.blocks "derived_table".toList)
      fun block again resembles => DerivedTable.ofBlock_resembles resembles
    rw [Declaration.firstBlock?, ← head?_map, Declaration.blocksOf, tables, head?_map]
    rfl
  simp only [ofDeclaration, name, startLine, table, derived, fieldsOf_rewrite rewrites alike]

/-- The explores of a declaration, one of their joins mended. -/
theorem exploresOf_rewrite :
    exploresOf (declaration.map rewrite) = (exploresOf declaration).map (.mend start written) := by
  have name := Declaration.name_map rewrites.toRelabels declaration
  have startLine : (declaration.map rewrite).startLine = declaration.startLine :=
    rewrites.number _
  unfold exploresOf
  rw [Declaration.kind_map rewrites.toRelabels]
  split
  · rw [map_singleton, ExploreSpec.ofDeclaration, name, startLine,
      ExploreSpec.ofBody_resembles declaration.name alike.body.properties alike.body.blocks]
    rfl
  · rw [map_map]
    refine map_eq_of_forall₂ (Block.Resembles.blocksOf alike.body.blocks "explore".toList) ?_
    intro block again resembles
    obtain ⟨-, sameName, sameLine, -, properties, blocks⟩ := resembles
    rw [ExploreSpec.ofBlock, sameName, sameLine,
      ExploreSpec.ofBody_resembles (block.name.getD []) properties blocks]
    rfl
  · rfl

end Declarations

section Models

variable {properties : List Text} {start : Nat} {value written first second : Text}
  {rewrite : Line → Line} (rewrites : Line.Rewrites rewrite)
  (lines : (Lexed.ofText properties second).lines =
    (Lexed.ofText properties first).lines.map rewrite)
  (kept : KeepsValues (Revalued start "sql_on".toList value written)
    (Document.ofText properties first).nodes (Document.ofText properties second).nodes)
include rewrites lines kept

theorem Model.views_rewrite :
    (ofDocument (.ofText properties second)).views =
      (ofDocument (.ofText properties first)).views := by
  have alike := Document.resembles_rewrite rewrites lines kept
  have kind : (fun declaration : Declaration => decide (declaration.kind = .view)) ∘
      Declaration.map rewrite = fun declaration => decide (declaration.kind = .view) := by
    funext declaration
    rw [Function.comp, Declaration.kind_map rewrites.toRelabels]
  rw [ofDocument, ofDocument]
  dsimp only
  rw [Document.declarationsOf, Document.declarations_rewrite rewrites lines, filter_map, kind,
    map_map]
  refine congrArg Keyed.ofOccurrences (map_congr_left fun declaration member => ?_)
  rw [Function.comp, Declaration.name_map rewrites.toRelabels,
    ViewSpec.ofDeclaration_rewrite rewrites (alike declaration (mem_of_mem_filter member))]

theorem Model.explores_rewrite :
    (ofDocument (.ofText properties second)).explores =
      (ofDocument (.ofText properties first)).explores.mapValues (.mend start written) := by
  have alike := Document.resembles_rewrite rewrites lines kept
  have explores : (Document.ofText properties second).declarations.flatMap exploresOf =
      ((Document.ofText properties first).declarations.flatMap exploresOf).map
        (.mend start written) := by
    rw [Document.declarations_rewrite rewrites lines, flatMap_map, map_flatMap]
    exact flatMap_congr fun declaration member =>
      exploresOf_rewrite rewrites (alike declaration member)
  rw [ofDocument, ofDocument]
  dsimp only
  rw [explores]
  exact @Keyed.ofOccurrences_map _ _ _ _ (.mend start written) ExploreSpec.name ExploreSpec.name
    id id (.mend start written) (fun _ => rfl) (fun _ => rfl) _

end Models

end Lint

section Headers

theorem Block.nodes_eq (around : List Nat) (block : Block) :
    (block.nodes around).map (·.startLine) =
      block.startLine ::
        (allNodes (block.startLine :: around) block.blocks).map (·.startLine) := by
  cases block
  rw [nodes, map_cons]

theorem Block.sublist_allNodes (around : List Nat) (blocks : List Block) :
    (blocks.map startLine).Sublist ((allNodes around blocks).map (·.startLine)) := by
  induction blocks with
  | nil => exact .slnil
  | cons block blocks ih =>
    rw [allNodes, map_append, nodes_eq]
    exact (ih.trans (sublist_append_right _ _)).cons_cons _

theorem Block.flatMap_sublist_allNodes (around : List Nat) (blocks : List Block) :
    (blocks.flatMap fun block => block.blocks.map startLine).Sublist
      ((allNodes around blocks).map (·.startLine)) := by
  induction blocks with
  | nil => exact .slnil
  | cons block blocks ih =>
    rw [allNodes, map_append, nodes_eq, flatMap_cons]
    exact ((sublist_allNodes _ block.blocks).append ih).cons _

theorem Entry.startLines_sublist (around : List Nat) (entries : List Entry) :
    ((nodes around entries).map (·.startLine)).Sublist
      ((entries.map opening).map Line.number) := by
  induction entries generalizing around with
  | nil => exact .slnil
  | cons entry entries ih =>
    cases entry with
    | grouped segment => exact (ih around).cons _
    | single line =>
      rw [nodes]
      split
      · exact (ih _).cons_cons _
      · exact (ih _).cons_cons _
      · exact (ih _).cons _
      · exact (ih _).cons _

theorem Document.nodup_startLines (properties : List Text) (text : Text) :
    ((ofText properties text).nodes.map (·.startLine)).Nodup := by
  have perm := perm_nodes .refl (Lexed.run_ofText properties text)
  have inLines := (Entry.startLines_sublist [] _).trans
    ((Entry.openings_sublist (Lexed.ofText properties text).lines).map Line.number)
  refine (perm.map _).nodup_iff.mpr (inLines.nodup ?_)
  exact pairwise_map.mpr ((Lexed.ascending_ofText properties text).imp Nat.ne_of_lt)

end Headers

namespace Lint

section Joins

/-- The lines of the joins of explores. -/
def joinPlaces (explores : List ExploreSpec) : List (Option Int) :=
  explores.flatMap fun explore => explore.joins.values.map (·.line)

/-- The joins of an explore are blocks of its body. -/
theorem ExploreSpec.sublist_joins (name : Text) (properties : Keyed Text)
    (blocks : List Block) (line : Nat) :
    ((ofBody name properties blocks line).joins.values.map (·.line)).Sublist
      ((blocks.map Block.startLine).map linePlace) := by
  have first := (Keyed.sublist_values ((blocks.filter fun block =>
    block.type = some "join".toList).map fun block =>
      (block.name.getD [], JoinSpec.ofBlock block))).map (·.line)
  rw [map_map, map_map] at first
  rw [map_map]
  exact first.trans (filter_sublist.map _)

theorem sublist_joinPlaces_exploresOf (declaration : Declaration) :
    (joinPlaces (exploresOf declaration)).Sublist
      ((declaration.nodes.map (·.startLine)).map linePlace) := by
  have inBlocks :
      ((Block.allNodes [declaration.startLine] declaration.body.blocks).map (·.startLine)).Sublist
        (declaration.nodes.map (·.startLine)) := by
    rw [Declaration.nodes, map_cons, map_append]
    exact (sublist_append_left _ _).cons _
  refine Sublist.trans ?_ (inBlocks.map linePlace)
  unfold exploresOf
  split
  · rw [joinPlaces, flatMap_singleton]
    exact (ExploreSpec.sublist_joins _ _ _ _).trans
      ((Block.sublist_allNodes _ declaration.body.blocks).map linePlace)
  · have inExplores : (joinPlaces ((declaration.blocksOf "explore".toList).map
        ExploreSpec.ofBlock)).Sublist
        ((declaration.blocksOf "explore".toList).flatMap fun block =>
          (block.blocks.map Block.startLine).map linePlace) := by
      rw [joinPlaces, flatMap_map]
      exact Sublist.flatMap_right _ fun block _ => ExploreSpec.sublist_joins _ _ _ _
    refine (inExplores.trans (filter_sublist.flatMap _)).trans ?_
    rw [← map_flatMap]
    exact (Block.flatMap_sublist_allNodes _ _).map linePlace
  · exact nil_sublist _

theorem Model.nodup_joinPlaces (properties : List Text) (text : Text) :
    (joinPlaces (ofDocument (.ofText properties text)).explores.values).Nodup := by
  have counted : (ofDocument (.ofText properties text)).explores.values.Sublist
      ((Document.ofText properties text).declarations.flatMap exploresOf) := by
    have values := Keyed.sublist_values
      (((Document.ofText properties text).declarations.flatMap exploresOf).map fun explore =>
        (explore.name, explore))
    rw [map_map, show (Prod.snd ∘ fun explore : ExploreSpec => (explore.name, explore)) = id
      from rfl, map_id] at values
    exact values
  have inNodes : (joinPlaces (ofDocument (.ofText properties text)).explores.values).Sublist
      (((Document.ofText properties text).nodes.map (·.startLine)).map linePlace) := by
    refine (counted.flatMap _).trans ?_
    rw [flatMap_assoc, Document.nodes, map_flatMap, map_flatMap]
    exact Sublist.flatMap_right _ fun declaration _ =>
      sublist_joinPlaces_exploresOf declaration
  refine inNodes.nodup ((Document.nodup_startLines properties text).map ?_)
  intro number other same
  exact Int.ofNat.inj (Option.some.inj same)

end Joins

section Mending

variable {start : Nat} {value written : Text}

theorem bareReference_mend (explore : ExploreSpec) (join : JoinSpec) :
    bareReference explore (join.mend start written) = bareReference explore join := by
  unfold JoinSpec.mend
  split <;> rfl

theorem joinViolations_mend (explore : ExploreSpec) :
    joinViolations (explore.mend start written) =
      explore.joins.values.flatMap fun join =>
        (bareReferences ((join.mend start written).sqlOn.getD [])).map
          (bareReference explore join) := by
  rw [joinViolations, ExploreSpec.mend, Keyed.values_mapValues, flatMap_map]
  refine flatMap_congr fun join _ => congrArg (List.map · _) ?_
  exact bareReference_mend explore join

/-- What is found in joins on other lines stays. -/
theorem flatMap_mend (explore : ExploreSpec) {joins : List JoinSpec}
    (others : linePlace start ∉ joins.map (·.line)) :
    (joins.flatMap fun join => (bareReferences ((join.mend start written).sqlOn.getD [])).map
        (bareReference explore join)) =
      joins.flatMap fun join => (bareReferences (join.sqlOn.getD [])).map
        (bareReference explore join) := by
  refine flatMap_congr fun join member => ?_
  have other : join.line ≠ linePlace start := fun same =>
    others (mem_map.mpr ⟨join, member, same⟩)
  rw [JoinSpec.mend, if_neg other]

theorem flatMap_joinViolations_mend {explores : List ExploreSpec}
    (others : linePlace start ∉ joinPlaces explores) :
    (explores.map (.mend start written)).flatMap joinViolations =
      explores.flatMap joinViolations := by
  rw [flatMap_map]
  refine flatMap_congr fun explore member => ?_
  rw [joinViolations_mend]
  exact flatMap_mend explore fun inside =>
    others (mem_flatMap.mpr ⟨explore, member, inside⟩)

/-- In the join on a line one reference is no longer bare, and all else stays. -/
theorem exists_joinViolations_mend {explores : List ExploreSpec} {explore : ExploreSpec}
    {join : JoinSpec} {reference : Text} {earlier later : List Text}
    (unique : (joinPlaces explores).Nodup) (isExplore : explore ∈ explores)
    (isJoin : join ∈ explore.joins.values) (line : join.line = linePlace start)
    (condition : join.sqlOn = some value)
    (references : bareReferences value = earlier ++ reference :: later)
    (references' : bareReferences written = earlier ++ later) :
    ∃ front behind,
      explores.flatMap joinViolations = front ++ bareReference explore join reference :: behind ∧
      (explores.map (.mend start written)).flatMap joinViolations = front ++ behind := by
  obtain ⟨before, after, rfl⟩ := append_of_mem isExplore
  obtain ⟨first, last, joins⟩ := append_of_mem isJoin
  have apart : linePlace start ∉ (joinPlaces before ++ first.map (·.line)) ++
      (last.map (·.line) ++ joinPlaces after) := by
    have whole : joinPlaces (before ++ explore :: after) =
        (joinPlaces before ++ first.map (·.line)) ++
          linePlace start :: (last.map (·.line) ++ joinPlaces after) := by
      simp [joinPlaces, joins, line]
    rw [whole, nodup_middle] at unique
    exact (nodup_cons.mp unique).1
  simp only [mem_append, not_or] at apart
  obtain ⟨⟨notBefore, notFirst⟩, notLast, notAfter⟩ := apart
  have mended : (join.mend start written).sqlOn = some written := by
    rw [JoinSpec.mend, if_pos line, condition]
    rfl
  let found (joins : List JoinSpec) : List Violation :=
    joins.flatMap fun join => (bareReferences (join.sqlOn.getD [])).map (bareReference explore join)
  refine ⟨before.flatMap joinViolations ++
      (found first ++ earlier.map (bareReference explore join)),
    later.map (bareReference explore join) ++ (found last ++ after.flatMap joinViolations), ?_, ?_⟩
  · rw [flatMap_append, flatMap_cons, joinViolations, joins, flatMap_append,
      flatMap_cons, condition, Option.getD_some, references, map_append, map_cons]
    simp [found]
  · rw [map_append, map_cons, flatMap_append, flatMap_cons,
      flatMap_joinViolations_mend notBefore, flatMap_joinViolations_mend notAfter,
      joinViolations_mend, joins, flatMap_append, flatMap_cons, flatMap_mend _ notFirst,
      flatMap_mend _ notLast, mended, Option.getD_some, references', map_append]
    simp [found]

end Mending

section Edits

theorem exists_of_go {α : Type} {test : Text → Option α} {start number : Nat}
    {lines : List Text} {result : α}
    (found : findLine?.go test start lines = some (number, result)) :
    ∃ upper line lower, lines = upper ++ line :: lower ∧ start + upper.length = number ∧
      test line = some result ∧ ∀ other ∈ upper, test other = none := by
  induction lines generalizing start with
  | nil => cases found
  | cons line lines ih =>
    rw [findLine?.go] at found
    split at found
    next here =>
      cases found
      exact ⟨[], line, lines, rfl, rfl, here, fun other member => nomatch member⟩
    next notHere =>
      obtain ⟨upper, next, lower, rfl, length, passes, silent⟩ := ih found
      refine ⟨line :: upper, next, lower, rfl, ?_, passes,
        forall_mem_cons.mpr ⟨notHere, silent⟩⟩
      rw [length_cons]
      omega

/-- The first line from a number on that passes a test. -/
theorem exists_of_findLine? {α : Type} {test : Text → Option α} {start number : Nat}
    {lines : List Text} {result : α} (found : findLine? test start lines = some (number, result)) :
    ∃ upper line lower, lines = upper ++ line :: lower ∧ upper.length = number ∧
      test line = some result ∧ ∀ other ∈ upper.drop start, test other = none := by
  obtain ⟨upper, line, lower, dropped, length, passes, silent⟩ := exists_of_go found
  have long : (lines.take start).length = start := by
    have reached := congrArg List.length dropped
    rw [length_drop, length_append, length_cons] at reached
    rw [length_take]
    omega
  refine ⟨lines.take start ++ upper, line, lower, ?_, ?_, passes, ?_⟩
  · rw [append_assoc, ← dropped, take_append_drop]
  · rw [length_append, long, length]
  · rw [drop_left' long]
    exact silent

variable {reference text : Text} (isReference : IsReference reference)

include isReference in
/-- The lines of a text in which a reference is substituted. -/
theorem lines_substitute {upper lower : List Text} {before after : Text}
    (split : text.lines = upper ++ (before ++ (reference ++ after)) :: lower) :
    ((⟨⟨upper.length, before.length⟩, ⟨upper.length, before.length + reference.length⟩,
        substitution reference⟩ : Edit).apply text).lines =
      upper ++ (before ++ (substitution reference ++ after)) :: lower := by
  have ends : (substitution reference).getLast? = some '}' :=
    getLast?_eq_some_iff.mpr ⟨'$' :: '{' :: reference, rfl⟩
  obtain ⟨front, back, -, applied, lines⟩ := Edit.exists_exchange split
    isReference.solid_substitution.single ⟨'}', ends, by decide⟩
  rw [applied, lines]

variable {explore : ExploreSpec} {join : JoinSpec} {unit : Text} {action : Action} {edit : Edit}

include isReference in
/-- What is offered for a bare reference is a substitution in the first line with a mention. -/
theorem exists_of_mem_substitutions
    (offered : action ∈ actions (bareReference explore join reference) text unit)
    (made : edit ∈ action.edits) :
    ∃ upper before after lower,
      text.lines = upper ++ (before ++ (reference ++ after)) :: lower ∧
      referenceIn? reference (before ++ (reference ++ after)) = some before.length ∧
      (∀ line ∈ upper.drop (bareReference explore join reference).searchStart,
        referenceIn? reference line = none) ∧
      edit.start.line = upper.length ∧
      (Edit.applyAll action.edits text).lines.map trim =
        (upper ++ (before ++ (substitution reference ++ after)) :: lower).map trim := by
  have mends : mend? (bareReference explore join reference) text unit =
      substituteReference? (bareReference explore join reference) text := by
    have rule : upper (bareReference explore join reference).rule = "E1".toList :=
      show upper "E1".toList = "E1".toList by decide +kernel
    rw [mend?, rule]
    rfl
  have named : (bareReference explore join reference).data.get? "reference".toList =
      some reference := rfl
  rw [actions, mends] at offered
  rcases mem_append.mp offered with mended | disabled
  · rw [Option.mem_toList, substituteReference?, named] at mended
    obtain ⟨again, isAgain, later⟩ := Option.bind_eq_some_iff.mp mended
    rw [Option.some_or] at isAgain
    cases isAgain
    obtain ⟨⟨number, column⟩, found, rest⟩ := Option.bind_eq_some_iff.mp later
    cases rest
    obtain ⟨upper, line, lower, split, rfl, passes, silent⟩ := exists_of_findLine? found
    obtain ⟨before, after, rfl, rfl, -, -⟩ := exists_of_referenceIn? passes
    refine ⟨upper, before, after, lower, split, passes, silent, ?_, ?_⟩
    · cases mem_singleton.mp made
      rfl
    · have written : "$\x7b".toList ++ reference ++ "\x7d".toList = substitution reference := by
        simp [substitution]
      rw [written]
      exact congrArg (map trim) (lines_substitute isReference split)
  · cases mem_singleton.mp disabled
    cases made

end Edits

/-- An edit meets what a violation is about: it is on a line of the condition of the join, and in
that condition the reference is first mentioned at a bare place. -/
def Meets (text : Text) (violation : Violation) (edit : Edit) : Prop :=
  ∃ segment ∈ (Lexed.ofText ({} : FormatSettings).segmentProperties text).segment?
      violation.searchStart "sql_on".toList,
    edit.start.line ∈ segment.lines.map Line.number ∧
    ∃ reference ∈ violation.data.get? "reference".toList,
      ∃ column ∈ referenceIn? reference segment.text,
        Bare (segment.text.take column) (segment.text.drop (column + reference.length))

instance (text : Text) (violation : Violation) (edit : Edit) :
    Decidable (Meets text violation edit) :=
  inferInstanceAs (Decidable (∃ _ ∈ _, _))

section Results

variable {text unit : Text} {violation : Violation} {action : Action} {edit : Edit}

/-- A violation of the rule on joins is a bare reference in one of them. -/
theorem exists_join_of_mem_violations (reported : violation ∈ (lintText {} text).violations)
    (rule : violation.rule = "E1".toList) :
    ∃ explore ∈ (structuralModel {} text).explores.values, ∃ join ∈ explore.joins.values,
      ∃ reference ∈ bareReferences (join.sqlOn.getD []),
        violation = bareReference explore join reference := by
  have apart : "K1".toList ≠ "E1".toList ∧ "F1".toList ≠ "E1".toList := by decide
  cases breach_of_mem_violations reported with
  | missingKey | misnamedKey => exact absurd rule apart.1
  | inJoin known isJoin isBare => exact ⟨_, known, _, isJoin, _, isBare, rfl⟩
  | inField => exact absurd rule apart.2

/-- Where a value is read from a segment, the join on the line of its header has it. -/
theorem sqlOn_of_self {properties : List Text} {start : Nat} {value : Text} {explore : ExploreSpec}
    {join : JoinSpec}
    (self : KeepsValues (Revalued start "sql_on".toList value value)
      (Document.ofText properties text).nodes (Document.ofText properties text).nodes)
    (isExplore : explore ∈ (Model.ofDocument (.ofText properties text)).explores.values)
    (isJoin : join ∈ explore.joins.values) (line : join.line = linePlace start)
    (given : join.sqlOn ≠ none) : join.sqlOn = some value := by
  have explores := congrArg Keyed.values
    (Model.explores_rewrite Line.rewrites_id (map_id _).symm self)
  rw [Keyed.values_mapValues] at explores
  have sameExplore : explore.mend start value = explore :=
    map_inj_left.mp (explores.symm.trans (map_id _).symm) explore isExplore
  have joins := congrArg (fun explore : ExploreSpec => explore.joins.values) sameExplore
  simp only [ExploreSpec.mend, Keyed.values_mapValues] at joins
  have sameJoin : join.mend start value = join :=
    map_inj_left.mp (joins.trans (map_id _).symm) join isJoin
  rw [JoinSpec.mend, if_pos line] at sameJoin
  have condition := congrArg JoinSpec.sqlOn sameJoin
  dsimp only at condition
  cases isGiven : join.sqlOn with
  | none => exact absurd isGiven given
  | some other =>
    rw [isGiven, Option.map_some] at condition
    exact condition.symm

/-- If of all properties only the condition of a join changes, and in it only one reference is no
longer bare, one violation is gone. -/
theorem exists_violations_mend {first second : Text} {rewrite : Line → Line} {start : Nat}
    {value written reference : Text} {earlier later : List Text}
    (rewrites : Line.Rewrites rewrite)
    (lines : (Lexed.ofText ({} : FormatSettings).segmentProperties second).lines =
      (Lexed.ofText ({} : FormatSettings).segmentProperties first).lines.map rewrite)
    (self : KeepsValues (Revalued start "sql_on".toList value value)
      (Document.ofText ({} : FormatSettings).segmentProperties first).nodes
      (Document.ofText ({} : FormatSettings).segmentProperties first).nodes)
    (kept : KeepsValues (Revalued start "sql_on".toList value written)
      (Document.ofText ({} : FormatSettings).segmentProperties first).nodes
      (Document.ofText ({} : FormatSettings).segmentProperties second).nodes)
    (reported : violation ∈ (lintText {} first).violations) (rule : violation.rule = "E1".toList)
    (line : violation.line = linePlace start)
    (named : violation.data.get? "reference".toList = some reference)
    (references : bareReferences value = earlier ++ reference :: later)
    (references' : bareReferences written = earlier ++ later) :
    ∃ front behind, (lintText {} first).violations = front ++ violation :: behind ∧
      (lintText {} second).violations = front ++ behind := by
  obtain ⟨explore, isExplore, join, isJoin, other, isBare, rfl⟩ :=
    exists_join_of_mem_violations reported rule
  cases named
  have given : join.sqlOn ≠ none := by
    intro none_
    rw [none_] at isBare
    cases isBare
  have condition := sqlOn_of_self self isExplore isJoin line given
  obtain ⟨front, behind, before, after⟩ := exists_joinViolations_mend
    (Model.nodup_joinPlaces ({} : FormatSettings).segmentProperties first) isExplore isJoin line
    condition references references'
  change (structuralModel {} first).explores.values.flatMap joinViolations = _ at before
  change ((structuralModel {} first).explores.values.map _).flatMap joinViolations = _ at after
  have views : tableBackedViews (structuralModel {} second) =
      tableBackedViews (structuralModel {} first) :=
    congrArg (fun views => (Keyed.values views).filter ViewSpec.isTableBacked)
      (Model.views_rewrite rewrites lines kept)
  have explores : (structuralModel {} second).explores.values =
      (structuralModel {} first).explores.values.map (.mend start written) :=
    (congrArg Keyed.values (Model.explores_rewrite rewrites lines kept)).trans
      (Keyed.values_mapValues _ _)
  refine ⟨(tableBackedViews (structuralModel {} first)).flatMap primaryKeyViolations ++ front,
    behind ++ (tableBackedViews (structuralModel {} first)).flatMap referenceViolations, ?_, ?_⟩
  · rw [violations_eq_checkAll, checkAll, before]
    simp
  · rw [violations_eq_checkAll, checkAll, views, explores, after]
    simp

/-- After the edit that is offered for a bare reference in a join, this violation is gone and all
others are found again, if the edit meets what the violation is about. -/
theorem violations_substituteReference (reported : violation ∈ (lintText {} text).violations)
    (rule : violation.rule = "E1".toList) (offered : action ∈ actions violation text unit)
    (made : edit ∈ action.edits) (meets : Meets text violation edit) :
    ∃ front behind, (lintText {} text).violations = front ++ violation :: behind ∧
      (lintText {} (Edit.applyAll action.edits text)).violations = front ++ behind := by
  obtain ⟨explore₀, -, join₀, -, reference, isBare, rfl⟩ :=
    exists_join_of_mem_violations reported rule
  obtain ⟨isReference, counts⟩ := isReference_of_mem isBare
  obtain ⟨upper, before, after, lower, split, place, silent, here, lines⟩ :=
    exists_of_mem_substitutions isReference offered made
  obtain ⟨segment, found, holds, again, isAgain, column, isColumn, bare⟩ := meets
  cases isAgain
  rw [here] at holds
  obtain ⟨front, back, value, first, self, rewrite, rewrites, rewritten, kept⟩ :=
    Document.exists_substituted isReference split lines found holds place silent
  have parts : segment.text.take column = front ∧
      segment.text.drop (column + reference.length) = back := by
    rw [first] at isColumn
    cases isColumn
    rw [value]
    refine ⟨List.take_left, ?_⟩
    rw [← List.append_assoc]
    exact List.drop_left' List.length_append
  rw [parts.1, parts.2] at bare
  obtain ⟨begins, ends⟩ : (∀ c ∈ front.getLast?, isBound c = false) ∧
      ∀ c ∈ back.head?, isWord c = false := by
    obtain ⟨front', back', whole, length, begins, ends⟩ := exists_of_referenceIn? first
    obtain ⟨rfl, rest⟩ := List.append_inj (value.symm.trans whole) length.symm
    cases List.append_cancel_left rest
    exact ⟨begins, ends⟩
  obtain ⟨references, references'⟩ := bare.bareReferences_substitution isReference counts
    (fun c last => isPathChar_of_not_isBound (begins c last)) ends
  rw [← value] at references
  have occupied := Text.tidy_ne_nil (congrArg (List.map trim) split)
    (isReference.solid.trim_ne_nil before after)
  have occupied' := Text.tidy_ne_nil lines
    (isReference.solid_substitution.trim_ne_nil before after)
  have line : (bareReference explore₀ join₀ reference).line =
      linePlace (bareReference explore₀ join₀ reference).searchStart := by
    obtain ⟨number, isLine⟩ := (breach_of_mem_violations reported).exists_line
    rw [Violation.searchStart, isLine]
    rfl
  rw [← violations_tidy rfl rfl occupied] at reported ⊢
  rw [← violations_tidy rfl rfl occupied']
  exact exists_violations_mend rewrites rewritten self kept reported rule line rfl references
    references'

end Results

/-- A join whose condition names two columns directly. -/
def bareJoin : Text :=
  "explore: e \x7b\n  join: j \x7b\n    sql_on: a.b = c.d ;;\n  \x7d\n\x7d".toList

theorem violations_substituteReference_bareJoin :
    ∃ violation ∈ (lintText {} bareJoin).violations, violation.rule = "E1".toList ∧
      ∃ action ∈ actions violation bareJoin "  ".toList, ∃ edit ∈ action.edits,
        Meets bareJoin violation edit ∧
        ∃ front behind, (lintText {} bareJoin).violations = front ++ violation :: behind ∧
          (lintText {} (Edit.applyAll action.edits bareJoin)).violations = front ++ behind := by
  obtain ⟨violation, reported, rule, action, offered, edit, made, meets⟩ :
      ∃ violation ∈ (lintText {} bareJoin).violations, violation.rule = "E1".toList ∧
        ∃ action ∈ actions violation bareJoin "  ".toList, ∃ edit ∈ action.edits,
          Meets bareJoin violation edit := by
    decide +kernel
  exact ⟨violation, reported, rule, action, offered, edit, made, meets,
    violations_substituteReference reported rule offered made meets⟩

/-- A join with a comment above its condition that mentions the same column. -/
def commentedJoin : Text :=
  "explore: e \x7b\n  join: j \x7b\n    # a.b\n".toList ++
    "    sql_on: a.b = $\x7bc.d\x7d ;;\n  \x7d\n\x7d".toList

/-- The edit is made in the comment, and the violations stay. -/
theorem violations_commentedJoin :
    ∃ violation ∈ (lintText {} commentedJoin).violations, violation.rule = "E1".toList ∧
      ∃ action ∈ actions violation commentedJoin "  ".toList, action.edits ≠ [] ∧
        (lintText {} (Edit.applyAll action.edits commentedJoin)).violations =
          (lintText {} commentedJoin).violations := by
  decide +kernel

end Lint

end LookML
