import LookML.Proofs.Coverage

/-!
# Breaches of the rules

What the rules find in a lint model is a view without a primary key, a primary key of another
name, a bare reference in a join, or a field that refers to another view.  In the model of a
document each of these comes from the first view or explore of its name and has a line.
-/

namespace LookML

open Text List

theorem Keyed.find?_of_mem {α : Type} {entries : List (Text × α)} {entry : Text × α}
    (known : entry ∈ ofOccurrences entries) :
    entries.find? (fun other => other.1 = entry.1) = some entry := by
  induction entries with
  | nil => cases known
  | cons first entries ih =>
    rw [ofOccurrences] at known
    rcases mem_cons.mp known with rfl | later
    · simp
    · obtain ⟨isEntry, other⟩ := mem_filter.mp later
      have different : first.1 ≠ entry.1 := fun same => of_decide_eq_true other same.symm
      rw [find?_cons_of_neg (by simpa using different)]
      exact ih isEntry

/-- A value that counts under a name is that of the first item of the name. -/
theorem Keyed.exists_of_mem_values {α β : Type} {items : List β} {name : β → Text} {make : β → α}
    {value : α}
    (known : value ∈ (ofOccurrences (items.map fun item => (name item, make item))).values) :
    ∃ item, items.find? (fun other => name other = name item) = some item ∧ make item = value := by
  obtain ⟨entry, isEntry, rfl⟩ := mem_map.mp known
  have first := find?_of_mem isEntry
  rw [find?_map] at first
  obtain ⟨item, isFirst, rfl⟩ := Option.map_eq_some_iff.mp first
  exact ⟨item, isFirst, rfl⟩

/-- A declaration as a block. -/
def Declaration.block (declaration : Declaration) : Block where
  type := declaration.header.shape.key?
  name := declaration.header.shape.name?
  properties := declaration.body.properties
  blocks := declaration.body.blocks
  startLine := declaration.startLine
  endLine := declaration.endLine

/-- The explores of a document, at the top level and in models. -/
def Document.explores (document : Document) : List Block :=
  document.declarations.flatMap fun declaration =>
    match declaration.kind with
    | .explore => [declaration.block]
    | .model => declaration.blocksOf "explore".toList
    | _ => []

/-- The first explore of a name. -/
def Document.explore? (document : Document) (name : Text) : Option Block :=
  document.explores.find? fun block => block.name.getD [] = name

namespace Lint

section Sources

theorem Model.exists_view {document : Document} {view : ViewSpec}
    (known : view ∈ (ofDocument document).views.values) :
    ∃ declaration, document.view? declaration.name = some declaration ∧
      ViewSpec.ofDeclaration declaration = view :=
  Keyed.exists_of_mem_values known

theorem Model.exists_explore {document : Document} {explore : ExploreSpec}
    (known : explore ∈ (ofDocument document).explores.values) :
    ∃ block, document.explore? (block.name.getD []) = some block ∧
      ExploreSpec.ofBlock block = explore := by
  have explores : document.declarations.flatMap exploresOf =
      document.explores.map ExploreSpec.ofBlock := by
    rw [Document.explores, map_flatMap]
    refine flatMap_congr fun declaration _ => ?_
    rw [exploresOf]
    cases declaration.kind <;> rfl
  rw [ofDocument, explores, map_map] at known
  exact Keyed.exists_of_mem_values known

theorem ViewSpec.exists_field {declaration : Declaration} {kind : FieldKind} {field : FieldSpec}
    (known : field ∈ (fieldsOf declaration kind).values) :
    ∃ source ∈ declaration.fields, source.kind = kind ∧ FieldSpec.ofField source = field := by
  obtain ⟨source, found, made⟩ := Keyed.exists_of_mem_values known
  obtain ⟨isField, isKind⟩ := mem_filter.mp (mem_of_find?_eq_some found)
  exact ⟨source, isField, of_decide_eq_true isKind, made⟩

theorem ExploreSpec.exists_join {block : Block} {join : JoinSpec}
    (known : join ∈ (ofBlock block).joins.values) :
    ∃ inner ∈ block.blocks, inner.type = some "join".toList ∧ JoinSpec.ofBlock inner = join := by
  obtain ⟨inner, found, made⟩ := Keyed.exists_of_mem_values known
  obtain ⟨isBlock, isJoin⟩ := mem_filter.mp (mem_of_find?_eq_some found)
  exact ⟨inner, isBlock, of_decide_eq_true isJoin, made⟩

/-- The fields of a collection that a rule looks at are those of one kind. -/
theorem exists_kind_of_mem {collection type : Text} {fields : ViewSpec → Keyed FieldSpec}
    (known : (collection, type, fields) ∈ referringCollections) :
    ∃ kind : FieldKind, kind ≠ .other ∧ type = kind.word.toList ∧
      nestedType? collection = some type ∧
      ∀ declaration, fields (.ofDeclaration declaration) = ViewSpec.fieldsOf declaration kind := by
  simp only [referringCollections, mem_cons, Prod.mk.injEq, not_mem_nil, or_false] at known
  rcases known with ⟨rfl, rfl, rfl⟩ | ⟨rfl, rfl, rfl⟩ | ⟨rfl, rfl, rfl⟩ | ⟨rfl, rfl, rfl⟩
  · exact ⟨.dimension, by decide, rfl, by decide, fun _ => rfl⟩
  · exact ⟨.dimensionGroup, by decide, rfl, by decide, fun _ => rfl⟩
  · exact ⟨.measure, by decide, rfl, by decide, fun _ => rfl⟩
  · exact ⟨.filter, by decide, rfl, by decide, fun _ => rfl⟩

end Sources

/-- The ways in which a model breaks a rule. -/
inductive Breach (model : Model) : Violation → Prop
  | missingKey {view : ViewSpec} (known : view ∈ tableBackedViews model)
      (keyless : view.dimensions.values.filter (·.primaryKey) = []) :
      Breach model (missingPrimaryKey view)
  | misnamedKey {view : ViewSpec} {field : FieldSpec} (known : view ∈ tableBackedViews model)
      (isField : field ∈ view.dimensions.values) : Breach model (misnamedPrimaryKey view field)
  | inJoin {explore : ExploreSpec} {join : JoinSpec} {reference : Text}
      (known : explore ∈ model.explores.values) (isJoin : join ∈ explore.joins.values)
      (isBare : reference ∈ bareReferences (join.sqlOn.getD [])) :
      Breach model (bareReference explore join reference)
  | inField {view : ViewSpec} {collection type : Text} {fields : ViewSpec → Keyed FieldSpec}
      {field : FieldSpec} (property place reference : Text)
      (known : view ∈ tableBackedViews model)
      (isCollection : (collection, type, fields) ∈ referringCollections)
      (isField : field ∈ (fields view).values) :
      Breach model (crossViewReference view collection type field property place reference)

theorem Rule.breach {rule : Rule} {model : Model} {violation : Violation} (known : rule ∈ rules)
    (found : violation ∈ rule.check model) : violation.rule = rule.id ∧ Breach model violation := by
  simp only [rules, mem_cons, not_mem_nil, or_false] at known
  rcases known with rfl | rfl | rfl
  · obtain ⟨view, isView, inView⟩ := mem_flatMap.mp found
    rw [primaryKeyViolations] at inView
    split at inView
    next keyless =>
      cases mem_singleton.mp inView
      exact ⟨rfl, .missingKey isView (List.isEmpty_iff.mp keyless)⟩
    next =>
      obtain ⟨field, isKey, rfl⟩ := mem_map.mp inView
      exact ⟨rfl, .misnamedKey isView (mem_of_mem_filter (mem_of_mem_filter isKey))⟩
  · obtain ⟨explore, isExplore, inExplore⟩ := mem_flatMap.mp found
    obtain ⟨join, isJoin, inJoin⟩ := mem_flatMap.mp inExplore
    obtain ⟨reference, isBare, rfl⟩ := mem_map.mp inJoin
    exact ⟨rfl, .inJoin isExplore isJoin isBare⟩
  · obtain ⟨view, isView, inView⟩ := mem_flatMap.mp found
    obtain ⟨collection, isCollection, inCollection⟩ := mem_flatMap.mp inView
    obtain ⟨field, isField, inField⟩ := mem_flatMap.mp inCollection
    obtain ⟨property, -, inProperty⟩ := mem_flatMap.mp inField
    obtain ⟨reference, -, rfl⟩ := mem_map.mp inProperty
    exact ⟨rfl, .inField _ _ _ isView isCollection isField⟩

theorem Breach.exists_line {document : Document} {violation : Violation}
    (breach : Breach (.ofDocument document) violation) :
    ∃ number : Nat, violation.line = some (number : Int) := by
  cases breach with
  | missingKey known _ =>
    obtain ⟨declaration, -, rfl⟩ := Model.exists_view (mem_of_mem_filter known)
    exact ⟨_, rfl⟩
  | misnamedKey known isField =>
    obtain ⟨declaration, -, rfl⟩ := Model.exists_view (mem_of_mem_filter known)
    obtain ⟨field, -, -, rfl⟩ := ViewSpec.exists_field isField
    exact ⟨_, rfl⟩
  | inJoin known isJoin _ =>
    obtain ⟨block, -, rfl⟩ := Model.exists_explore known
    obtain ⟨inner, -, -, rfl⟩ := ExploreSpec.exists_join isJoin
    exact ⟨_, rfl⟩
  | inField _ _ _ known isCollection isField =>
    obtain ⟨declaration, -, rfl⟩ := Model.exists_view (mem_of_mem_filter known)
    obtain ⟨kind, -, -, -, fields⟩ := exists_kind_of_mem isCollection
    rw [fields] at isField
    obtain ⟨field, -, -, rfl⟩ := ViewSpec.exists_field isField
    exact ⟨_, rfl⟩

variable {text : Text} {violation : Violation}

/-- What is reported is a breach, with the severity that is set for its rule. -/
theorem exists_breach {settings : Settings} (structural : settings.lint.useFallbackReader = false)
    (reported : violation ∈ (lintText settings text).violations) :
    ∃ found, Breach (structuralModel settings.format text) found ∧
      violation = found.withSeverity (settings.lint.severities.get? found.rule) := by
  rw [lintText] at reported
  split at reported
  · cases reported
  rw [structural] at reported
  obtain ⟨_, isFound, rfl⟩ := mem_map.mp reported
  obtain ⟨rule, isActive, inRule⟩ := mem_flatMap.mp isFound
  obtain ⟨found, isBroken, rfl⟩ := mem_map.mp inRule
  obtain ⟨isRule, breach⟩ := Rule.breach (mem_of_mem_filter isActive) isBroken
  obtain ⟨number, line⟩ := breach.exists_line
  refine ⟨found, breach, ?_⟩
  rw [isRule]
  simp only [Violation.located, Violation.withSeverity, line, Option.getD_some]

theorem breach_of_mem_violations (reported : violation ∈ (lintText {} text).violations) :
    Breach (structuralModel {} text) violation := by
  obtain ⟨found, breach, rfl⟩ := exists_breach rfl reported
  exact breach

end Lint

end LookML
