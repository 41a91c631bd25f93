import LookML.Proofs.Breaches
import LookML.Proofs.KeyInsertion

/-!
# Missing primary keys

A view without a primary key is offered a new dimension in front of its closing brace.  The
dimension counts unless the view has one of its name already: the first one counts.  Nothing
else that was found changes but the numbers of the lines behind it.
-/

namespace LookML

open Text List

variable {front behind : List Declaration} {violation : Violation} {number : Nat} {row : Nat → Nat}
  {text : Text}

namespace Lint

section Models

/-- The first view of a name stands among the views of other names. -/
theorem Model.exists_around {name : Text}
    (first : ∀ declaration ∈ front, declaration.kind = .view → declaration.name ≠ name) :
    ∃ before after : List ViewSpec, (∀ other ∈ before ++ after, other.name ≠ name) ∧
      ∀ (document : Document) (view : Declaration),
        document.declarations = front ++ view :: behind → view.kind = .view → view.name = name →
        (ofDocument document).views.values =
          before ++ ViewSpec.ofDeclaration view :: after := by
  let entries (declarations : List Declaration) : List (Text × ViewSpec) :=
    (declarations.filter fun declaration => declaration.kind = .view).map fun declaration =>
      (declaration.name, ViewSpec.ofDeclaration declaration)
  have named {declarations : List Declaration} {entry : Text × ViewSpec}
      (member : entry ∈ Keyed.ofOccurrences (entries declarations)) :
      ∃ declaration ∈ declarations, declaration.kind = .view ∧
        entry = (declaration.name, ViewSpec.ofDeclaration declaration) := by
    obtain ⟨declaration, inViews, rfl⟩ :=
      mem_map.mp ((Keyed.sublist_ofOccurrences _).subset member)
    obtain ⟨inAll, kind⟩ := mem_filter.mp inViews
    exact ⟨declaration, inAll, by simpa using kind, rfl⟩
  have absent : name ∉ (entries front).map Prod.fst := by
    intro member
    obtain ⟨entry, isEntry, same⟩ := mem_map.mp member
    obtain ⟨declaration, inViews, rfl⟩ := mem_map.mp isEntry
    obtain ⟨inFront, kind⟩ := mem_filter.mp inViews
    exact first declaration inFront (by simpa using kind) same
  refine ⟨(Keyed.ofOccurrences (entries front)).values,
    Keyed.values (((Keyed.ofOccurrences (entries behind)).filter fun entry => entry.1 ≠ name).filter
      fun entry => entry.1 ∉ (entries front).map Prod.fst), ?_, ?_⟩
  · refine forall_mem_append.mpr ⟨forall_mem_map.mpr fun entry isEntry => ?_,
      forall_mem_map.mpr fun entry isEntry => ?_⟩
    · obtain ⟨declaration, inFront, kind, rfl⟩ := named isEntry
      exact first declaration inFront kind
    · obtain ⟨kept, -⟩ := mem_filter.mp isEntry
      obtain ⟨kept, otherName⟩ := mem_filter.mp kept
      obtain ⟨declaration, -, -, rfl⟩ := named kept
      exact of_decide_eq_true otherName
  · rintro document view declared kind rfl
    have whole : entries document.declarations =
        entries front ++ (view.name, ViewSpec.ofDeclaration view) :: entries behind := by
      simp [entries, declared, kind]
    rw [ofDocument, Document.declarationsOf]
    dsimp only
    rw [show (List.map _ (List.filter _ document.declarations)) = _ from whole,
      Keyed.ofOccurrences_append, Keyed.ofOccurrences,
      filter_cons_of_pos (by simpa using absent)]
    simp [Keyed.values]

/-- Views have no part in explores. -/
theorem Model.explores_of_view {first second : Document}
    {view other : Declaration} (declared : first.declarations = front ++ view :: behind)
    (declared' : second.declarations = front ++ other :: behind) (kind : view.kind = .view)
    (kind' : other.kind = .view) :
    (ofDocument first).explores = (ofDocument second).explores := by
  have none_ {declaration : Declaration} (isView : declaration.kind = .view) :
      exploresOf declaration = [] := by
    rw [exploresOf, isView]
  simp only [ofDocument, declared, declared', flatMap_append, flatMap_cons,
    none_ kind, none_ kind']

/-- The violations of all rules, given the views that are tables and the explores. -/
def checkAll (views : List ViewSpec) (explores : List ExploreSpec) : List Violation :=
  views.flatMap primaryKeyViolations ++
    (explores.flatMap joinViolations ++ views.flatMap referenceViolations)

theorem applyRules_default (model : Model) :
    applyRules defaultRules [] [] model =
      checkAll (tableBackedViews model) model.explores.values := by
  have active : activeRules defaultRules [] = rules := by
    rw [activeRules, filter_eq_self]
    intro rule member
    simp only [rules, mem_cons, not_mem_nil, or_false] at member
    rcases member with rfl | rfl | rfl <;> decide +kernel
  have plain : Violation.withSeverity none = id := funext fun _ => rfl
  rw [applyRules, active, checkAll]
  simp [rules, Keyed.get?, plain]

end Models

section Paths

theorem eq_of_mem_primaryKeyViolations {view : ViewSpec}
    (member : violation ∈ primaryKeyViolations view) (path : violation.path.length = 2) :
    violation = missingPrimaryKey view ∧ view.dimensions.values.filter (·.primaryKey) = [] := by
  rw [primaryKeyViolations] at member
  split at member
  next none_ => exact ⟨mem_singleton.mp member, List.isEmpty_iff.mp none_⟩
  next =>
    obtain ⟨field, -, rfl⟩ := mem_map.mp member
    cases path

end Paths

section Specs

/-- The dimension `pk` as the rules see it. -/
def keySpec (number : Nat) : FieldSpec where
  name := "pk".toList
  type := some "string".toList
  sql := some "$\x7bTABLE\x7d.id".toList
  primaryKey := true
  line := some number

/-- Whether a view has a dimension `pk`. -/
def ViewSpec.HasKeyName (view : ViewSpec) : Prop :=
  "pk".toList ∈ view.dimensions.map Prod.fst

instance (view : ViewSpec) : Decidable view.HasKeyName :=
  inferInstanceAs (Decidable (_ ∈ _))

theorem ViewSpec.hasKeyName_reline (place : Option Int → Option Int) (view : ViewSpec) :
    (view.reline place).HasKeyName ↔ view.HasKeyName := by
  rw [HasKeyName, HasKeyName, reline, Keyed.mapValues, map_map]
  rfl

/-- The view with the dimension `pk` behind its own.  It counts if it is the first of its name. -/
def ViewSpec.addKey (number : Nat) (view : ViewSpec) : ViewSpec :=
  if view.HasKeyName then view
  else { view with dimensions := view.dimensions ++ [("pk".toList, keySpec number)] }

theorem FieldSpec.ofField_keyField (parent : Enclosing) (comments : List Line)
    (number depth : Nat) :
    ofField (keyField parent comments number depth) = keySpec number := by
  rw [ofField, Field.isPrimaryKey, Field.get?, keyField_properties]
  rfl

/-- A declaration with one more field that is a dimension `pk`. -/
theorem ViewSpec.ofDeclaration_addKey {first second : Declaration} {parent : Enclosing}
    {comments : List Line} {depth : Nat} (header : second.header = first.header)
    (content : second.content = first.content)
    (fields : second.fields = first.fields ++ [keyField parent comments number depth]) :
    ofDeclaration second = (ofDeclaration first).addKey number := by
  have key : (keyField parent comments number depth).kind = .dimension :=
    show FieldKind.ofType "dimension".toList = .dimension by decide +kernel
  have same {kind : FieldKind} (other : kind ≠ .dimension) :
      fieldsOf second kind = fieldsOf first kind := by
    rw [fieldsOf, Declaration.fieldsOf, fields, filter_append,
      filter_cons_of_neg (by simp [key, other.symm]), filter_nil, append_nil]
    rfl
  have dimensions : fieldsOf second .dimension = fieldsOf first .dimension ++
      if (ofDeclaration first).HasKeyName then []
      else [("pk".toList, keySpec number)] := by
    have names : (ofDeclaration first).HasKeyName ↔
        "pk".toList ∈ ((first.fieldsOf .dimension).map fun field =>
          (field.name, FieldSpec.ofField field)).map Prod.fst := by
      refine ⟨fun member => ?_, Keyed.mem_names_ofOccurrences⟩
      obtain ⟨entry, isEntry, same⟩ := mem_map.mp member
      exact mem_map.mpr ⟨entry, (Keyed.sublist_ofOccurrences _).subset isEntry, same⟩
    have last : (keyField parent comments number depth).name = "pk".toList := rfl
    rw [fieldsOf, Declaration.fieldsOf, fields, filter_append, map_append,
      Keyed.ofOccurrences_append, filter_cons_of_pos (by simp [key]), filter_nil,
      map_singleton, last, FieldSpec.ofField_keyField]
    congr 1
    split
    next taken =>
      refine filter_cons_of_neg ?_
      rw [decide_eq_true_iff]
      exact not_not.mpr (names.mp taken)
    next free =>
      exact filter_cons_of_pos (decide_eq_true fun member => free (names.mpr member))
  have childDepth : second.childDepth = first.childDepth := by
    rw [Declaration.childDepth, header]
    rfl
  have body : second.body = first.body := by
    rw [Declaration.body, content, childDepth]
    rfl
  have name : second.name = first.name := by
    rw [Declaration.name, header]
    rfl
  have startLine : second.startLine = first.startLine := congrArg Line.number header
  have others : ofDeclaration second =
      { ofDeclaration first with dimensions := fieldsOf second .dimension } := by
    simp only [ofDeclaration, Declaration.get?, Declaration.firstBlock?,
      Declaration.blocksOf, body, name, startLine, same, ne_eq, reduceCtorEq, not_false_eq_true]
  rw [others, dimensions, addKey]
  split
  next => rw [append_nil]; rfl
  next => rfl

/-- With the dimension `pk` a view is no longer without primary key, unless another dimension
has its name. -/
theorem primaryKeyViolations_addKey {view : ViewSpec} (number : Nat)
    (keyless : view.dimensions.values.filter (·.primaryKey) = []) :
    primaryKeyViolations (view.addKey number) =
      if view.HasKeyName then [missingPrimaryKey view] else [] := by
  rw [ViewSpec.addKey]
  split
  next => simp [primaryKeyViolations, keyless]
  next =>
    have keys : (view.dimensions ++ [("pk".toList, keySpec number)]).values.filter (·.primaryKey) =
        [keySpec number] := by
      rw [Keyed.values, map_append, filter_append]
      exact congrArg (· ++ _) keyless
    rw [primaryKeyViolations]
    dsimp only
    have otherwise : (!isPrimaryKeyName (keySpec number).name) = false :=
      show (!isPrimaryKeyName "pk".toList) = false by decide +kernel
    rw [keys, if_neg (by simp), filter_cons_of_neg (by simp [otherwise])]
    rfl

/-- The dimension `pk` refers to no other view. -/
theorem referenceViolations_addKey (view : ViewSpec) (number : Nat) :
    referenceViolations (view.addKey number) = referenceViolations view := by
  have none_ (property : Text × (FieldSpec → Option Text) × Text)
      (member : property ∈ referringProperties) :
      crossViewReferences view.name ((property.2.1 (keySpec number)).getD []) = [] := by
    have unreferred : findAll (fun _ rest => fieldReferenceAt? rest)
        "$\x7bTABLE\x7d.id".toList = [] := by
      decide +kernel
    simp only [referringProperties, mem_cons, not_mem_nil, or_false] at member
    rcases member with rfl | rfl
    · exact congrArg (fun found => List.map _ (List.filter _ found)) unreferred
    · rfl
  rw [ViewSpec.addKey]
  split
  next => rfl
  next =>
    rw [referenceViolations, referenceViolations]
    refine flatMap_congr fun collection member => ?_
    simp only [referringCollections, mem_cons, not_mem_nil, or_false] at member
    rcases member with rfl | others
    · dsimp only
      rw [Keyed.values, map_append, flatMap_append, map_singleton, flatMap_singleton]
      refine Eq.trans (congrArg (List.append _) ?_) (append_nil _)
      refine flatMap_eq_nil_iff.mpr fun property member => ?_
      rw [none_ property member, map_nil]
    · rcases others with rfl | rfl | rfl <;> rfl

/-- A key added to a view mends what is missing there, unless its name is taken, and changes
nothing else. -/
theorem checkAll_addKey {before after : List ViewSpec} {view : ViewSpec} (number : Nat)
    (otherNames : ∀ other ∈ before ++ after, other.name ≠ view.name)
    (keyless : view.dimensions.values.filter (·.primaryKey) = []) (explores : List ExploreSpec) :
    checkAll (before ++ view.addKey number :: after) explores =
      (checkAll (before ++ view :: after) explores).filter fun violation =>
        violation ≠ missingPrimaryKey view ∨ view.HasKeyName := by
  have missing : primaryKeyViolations view = [missingPrimaryKey view] := by
    rw [primaryKeyViolations, keyless]
    rfl
  by_cases taken : view.HasKeyName
  · rw [ViewSpec.addKey, if_pos taken, filter_eq_self.mpr]
    intro violation _
    exact decide_eq_true (.inr taken)
  · -- Whatever else is found has another path.
    have kept {violations : List Violation}
        (different : ∀ violation ∈ violations, violation.path ≠ (missingPrimaryKey view).path) :
        violations.filter (fun violation =>
          decide (violation ≠ missingPrimaryKey view ∨ view.HasKeyName)) = violations := by
      refine filter_eq_self.mpr fun violation member => decide_eq_true (.inl ?_)
      exact fun same => different violation member (congrArg Violation.path same)
    have keys {views : List ViewSpec} (names : ∀ other ∈ views, other.name ≠ view.name) :
        ∀ violation ∈ views.flatMap primaryKeyViolations,
          violation.path ≠ (missingPrimaryKey view).path := by
      intro violation member path
      obtain ⟨other, isView, inView⟩ := mem_flatMap.mp member
      obtain ⟨rfl, -⟩ := eq_of_mem_primaryKeyViolations inView (congrArg List.length path)
      exact names other isView (by simpa [missingPrimaryKey] using path)
    have long {violations : List Violation}
        (length : ∀ violation ∈ violations, violation.path.length = 5) :
        ∀ violation ∈ violations, violation.path ≠ (missingPrimaryKey view).path := by
      intro violation member path
      have five := length violation member
      rw [path] at five
      cases five
    have joins : ∀ violation ∈ explores.flatMap joinViolations, violation.path.length = 5 := by
      intro violation member
      obtain ⟨explore, -, inExplore⟩ := mem_flatMap.mp member
      obtain ⟨join, -, inJoin⟩ := mem_flatMap.mp inExplore
      obtain ⟨reference, -, rfl⟩ := mem_map.mp inJoin
      rfl
    have references : ∀ violation ∈ (before ++ view :: after).flatMap referenceViolations,
        violation.path.length = 5 := by
      intro violation member
      obtain ⟨other, -, inView⟩ := mem_flatMap.mp member
      obtain ⟨collection, -, inCollection⟩ := mem_flatMap.mp inView
      obtain ⟨field, -, inField⟩ := mem_flatMap.mp inCollection
      obtain ⟨property, -, inProperty⟩ := mem_flatMap.mp inField
      obtain ⟨reference, -, rfl⟩ := mem_map.mp inProperty
      rfl
    have gone : [missingPrimaryKey view].filter (fun violation =>
        decide (violation ≠ missingPrimaryKey view ∨ view.HasKeyName)) = [] := by
      simp [taken]
    rw [checkAll, checkAll, filter_append, filter_append, kept (long joins),
      kept (long references)]
    simp only [flatMap_append, flatMap_cons, filter_append, missing, gone,
      primaryKeyViolations_addKey number keyless, if_neg taken, referenceViolations_addKey,
      kept (keys (forall_mem_append.mp otherNames).1),
      kept (keys (forall_mem_append.mp otherNames).2)]

end Specs

theorem ViewSpec.isTableBacked_reline (place : Option Int → Option Int) (view : ViewSpec) :
    (view.reline place).isTableBacked = view.isTableBacked := by
  simp [isTableBacked, reline]

/-- A view without content has neither table nor query. -/
theorem ViewSpec.content_ne_nil {declaration : Declaration}
    (backed : (ofDeclaration declaration).isTableBacked = true) : declaration.content ≠ [] := by
  intro none_
  have body : declaration.body = {} := by
    rw [Declaration.body, none_, Body.ofLines, Entry.group, Entry.groupFrom, Option.toList_none,
      map_nil, Member.read]
    rfl
  rw [ofDeclaration, isTableBacked, Declaration.get?, Declaration.firstBlock?,
    Declaration.blocksOf, body] at backed
  cases backed

section Finding

variable {lines others : List Line} {view keyed : Declaration}

/-- A key added to the first view of a name. -/
theorem found_addKey
    (declared : (Document.ofLexed ⟨lines, []⟩).declarations = front ++ view :: behind)
    (declared' : (Document.ofLexed ⟨others, []⟩).declarations = front ++ keyed :: behind)
    (kind : view.kind = .view) (kind' : keyed.kind = .view) (name : keyed.name = view.name)
    (first : ∀ declaration ∈ front, declaration.kind = .view → declaration.name ≠ view.name)
    (spec : ViewSpec.ofDeclaration keyed = (ViewSpec.ofDeclaration view).addKey number)
    (backed : (ViewSpec.ofDeclaration view).isTableBacked = true)
    (keyless : (ViewSpec.ofDeclaration view).dimensions.values.filter (·.primaryKey) = []) :
    found {} others = (found {} lines).filter fun violation =>
      violation ≠ missingPrimaryKey (ViewSpec.ofDeclaration view) ∨
        (ViewSpec.ofDeclaration view).HasKeyName := by
  obtain ⟨before, after, otherNames, views⟩ := @Model.exists_around front behind view.name first
  have explores := Model.explores_of_view declared declared' kind kind'
  have tables : tableBackedViews (.ofDocument (.ofLexed ⟨lines, []⟩)) =
      before.filter ViewSpec.isTableBacked ++
        ViewSpec.ofDeclaration view :: after.filter ViewSpec.isTableBacked := by
    rw [tableBackedViews, views _ view declared kind rfl, filter_append,
      filter_cons_of_pos backed]
  have backed' : ((ViewSpec.ofDeclaration view).addKey number).isTableBacked = true := by
    rw [ViewSpec.addKey]
    split <;> exact backed
  have tables' : tableBackedViews (.ofDocument (.ofLexed ⟨others, []⟩)) =
      before.filter ViewSpec.isTableBacked ++
        (ViewSpec.ofDeclaration view).addKey number :: after.filter ViewSpec.isTableBacked := by
    rw [tableBackedViews, views _ keyed declared' kind' name, filter_append, spec,
      filter_cons_of_pos backed']
  have names : ∀ other ∈ before.filter ViewSpec.isTableBacked ++
      after.filter ViewSpec.isTableBacked, other.name ≠ (ViewSpec.ofDeclaration view).name := by
    intro other member
    rw [← filter_append] at member
    exact otherNames other (mem_of_mem_filter member)
  have mended := checkAll_addKey number names keyless
    (Model.ofDocument (.ofLexed ⟨others, []⟩)).explores.values
  rw [← tables, ← tables', ← applyRules_default, ← explores, ← applyRules_default] at mended
  exact mended

end Finding

section Offers

variable {unit : Text}

/-- The violations of a text are those of all rules. -/
theorem violations_eq_checkAll (text : Text) :
    (lintText {} text).violations =
      checkAll (tableBackedViews (structuralModel {} text))
        (structuralModel {} text).explores.values := by
  have quiet := Model.ofDocument_loud
    (Lexed.run_ofText ({} : FormatSettings).segmentProperties text)
    (Lexed.ofText ({} : FormatSettings).segmentProperties text).anomalies []
  rw [violations_lintText rfl rfl, ← applyRules_default]
  exact congrArg (applyRules defaultRules [] []) quiet

/-- A violation with a path of two parts is a view without a primary key. -/
theorem exists_of_mem_violations
    (reported : violation ∈ (lintText {} text).violations) (path : violation.path.length = 2) :
    ∃ view ∈ tableBackedViews (structuralModel {} text), violation = missingPrimaryKey view ∧
      view.dimensions.values.filter (·.primaryKey) = [] := by
  cases breach_of_mem_violations reported with
  | missingKey known keyless => exact ⟨_, known, rfl, keyless⟩
  | misnamedKey | inJoin | inField => cases path

/-- What is offered for a view without a primary key is an edit before its closing brace. -/
theorem exists_of_mem_actions {view : ViewSpec} {action : Action}
    (offered : action ∈ actions (missingPrimaryKey view) text unit) (edits : action.edits ≠ []) :
    ∃ declaration footer,
      (Document.ofText ({} : FormatSettings).segmentProperties text).view? view.name =
        some declaration ∧
      declaration.footer = some footer ∧
      action.edits = [⟨⟨footer.number, 0⟩, ⟨footer.number, 0⟩, primaryKeyTemplate unit⟩] := by
  have mends : mend? (missingPrimaryKey view) text unit =
      addPrimaryKey? (missingPrimaryKey view) text unit := by
    have rule : upper (missingPrimaryKey view).rule = "K1".toList :=
      show upper "K1".toList = "K1".toList by decide +kernel
    rw [mend?, rule]
    rfl
  have named : (missingPrimaryKey view).data.get? "view".toList = some view.name := rfl
  rw [actions, mends] at offered
  rcases mem_append.mp offered with mended | disabled
  · have name : (if view.name.isEmpty then ((missingPrimaryKey view).path.drop 1).headD []
        else view.name) = view.name := by
      split <;> rfl
    rw [Option.mem_toList, addPrimaryKey?, named] at mended
    simp only [Option.getD_some, name] at mended
    obtain ⟨declaration, found, rest⟩ := Option.bind_eq_some_iff.mp mended
    obtain ⟨footer, closed, rest⟩ := Option.bind_eq_some_iff.mp rest
    cases rest
    exact ⟨declaration, footer, found, closed, rfl⟩
  · obtain rfl := mem_singleton.mp disabled
    exact absurd rfl edits

end Offers

end Lint

theorem Document.exists_of_view? {document : Document} {name : Text} {view : Declaration}
    (found : document.view? name = some view) :
    ∃ front behind, document.declarations = front ++ view :: behind ∧ view.kind = .view ∧
      view.name = name ∧
      ∀ declaration ∈ front, declaration.kind = .view → declaration.name ≠ name := by
  rw [view?, declarationsOf, find?_filter] at found
  obtain ⟨holds, front, behind, whole, before⟩ := find?_eq_some_iff_append.mp found
  simp only [decide_eq_true_eq] at holds
  refine ⟨front, behind, whole, holds.1, holds.2, fun declaration member kind name => ?_⟩
  have not_ := before declaration member
  simp [kind, name] at not_

/-- Numbers from a bound on moved up, to make room for a number of lines. -/
def shift (bound count number : Nat) : Nat :=
  if number < bound then number else number + count

theorem strictMono_shift (bound count : Nat) : StrictMono (shift bound count) := by
  intro first second less
  unfold shift
  split <;> split <;> omega

/-- A line without the blanks around its text, under another number. -/
def Line.moved (row : Nat → Nat) (line : Line) : Line :=
  line.strip.renumber row

theorem Line.renumbers_moved (mono : StrictMono row) : Line.Renumbers row (moved row) where
  depth := fun _ => rfl
  frame := fun line => .refl line.shape
  shape := fun _ => rfl
  marker := fun line comment => renumbers_strip.marker line comment
  order := fun _ _ => mono.lt_iff_lt
  number := fun _ => rfl
  stripped := fun line => trim_trim line.text

/-- Lines under the numbers they have behind inserted ones. -/
theorem Line.map_moved_shift {before after : List Line} {bound : Nat} (count : Nat)
    (above : ∀ line ∈ before, line.number < bound) (below : ∀ line ∈ after, bound ≤ line.number) :
    ((before ++ after).filter isLoud).map (moved (shift bound count)) =
      plain before ++ (plain after).map (renumber (· + count)) := by
  rw [filter_append, map_append, plain, plain, map_map]
  congr 1
  · refine map_congr_left fun line member => ?_
    have less := above line (mem_of_mem_filter member)
    rw [moved, renumber, shift, if_pos (show line.strip.number < bound from less)]
  · refine map_congr_left fun line member => ?_
    have reached := Nat.not_lt.mpr (below line (mem_of_mem_filter member))
    rw [moved, renumber, shift, if_neg (show ¬ line.strip.number < bound from reached)]
    rfl

theorem Line.plain_cons {line : Line} (loud : line.isLoud = true) (lines : List Line) :
    plain (line :: lines) = line.strip :: plain lines := by
  rw [plain, filter_cons_of_pos loud]
  rfl

/-- The loud lines of a text, without the blanks around them and under other numbers. -/
def Lexed.moved (row : Nat → Nat) (lexed : Lexed) : List Line :=
  (lexed.lines.filter Line.isLoud).map (Line.moved row)

/-- A declaration without its quiet lines and under other numbers. -/
def Declaration.moved (row : Nat → Nat) (declaration : Declaration) : Declaration :=
  declaration.loud.map (Line.moved row)

section Moved

variable (mono : StrictMono row) (declaration : Declaration)
include mono

theorem Declaration.kind_moved : (declaration.moved row).kind = declaration.kind :=
  kind_map (Line.renumbers_moved mono).toRelabels _

theorem Declaration.name_moved : (declaration.moved row).name = declaration.name :=
  name_map (Line.renumbers_moved mono).toRelabels _

theorem Document.declarations_moved (lexed : Lexed) :
    (ofLexed ⟨lexed.moved row, []⟩).declarations =
      (ofLexed lexed).declarations.map (Declaration.moved row) := by
  rw [Lexed.moved, declarations_map (Line.renumbers_moved mono) _ [] [],
    declarations_loud lexed.lines lexed.anomalies [], map_map]
  rfl

end Moved

/-- A line among those of a text, moved to make room in front of it, is a line of the text, and
the lines around it are those around it there. -/
theorem Lexed.exists_of_moved {properties : List Text} {footer : Line}
    {before after : List Line} (count : Nat)
    (whole : (ofText properties text).moved (shift footer.number count) =
      before ++ footer.moved (shift footer.number count) :: after) :
    ∃ above line below, (ofText properties text).lines = above ++ line :: below ∧
      above.length = footer.number ∧ line.isLoud = true ∧
      footer.moved (shift footer.number count) = line.strip.renumber (· + count) ∧
      before = Line.plain above ∧ after = (Line.plain below).map (Line.renumber (· + count)) := by
  have mono := strictMono_shift footer.number count
  have member : footer.moved (shift footer.number count) ∈ (ofText properties text).moved
      (shift footer.number count) := by
    rw [whole]
    simp
  obtain ⟨line, isLoud, sameLine⟩ := mem_map.mp member
  obtain ⟨inLines, heard⟩ := mem_filter.mp isLoud
  have number : line.number = footer.number := mono.injective (congrArg Line.number sameLine)
  obtain ⟨above, below, split, length, less, notLess⟩ := exists_above_below inLines
  rw [number] at length less notLess
  have parts := Line.map_moved_shift count less notLess
  rw [← split, Line.plain_cons heard, map_cons] at parts
  have ascending :
      Ascending ((ofText properties text).moved (shift footer.number count)) := by
    have sorted := (ascending_ofText properties text).filter Line.isLoud
    exact pairwise_map.mpr (sorted.imp fun less => mono less)
  rw [show moved _ _ = _ from parts, ← map_id (_ ++ _)] at ascending
  obtain ⟨sameAbove, sameFooter, sameBelow⟩ := ascending.eq_of_split (parts.symm.trans whole) (by
    rw [← sameLine]
    exact (if_neg (Nat.not_lt.mpr (Nat.le_of_eq number.symm)) : shift _ _ line.number = _))
  exact ⟨above, line, below, split, length, heard, sameFooter, sameAbove, sameBelow⟩

/-- The lines of a text around the brace of a declaration, and the declaration that is open before
the brace, with all lines moved to make room in front of it. -/
theorem Document.exists_split_footer {properties : List Text} {declaration : Declaration}
    {footer : Line} {count : Nat} (room : shift footer.number count = row)
    (declared : (ofText properties text).declarations = front ++ declaration :: behind)
    (closed : declaration.footer = some footer) (occupied : (declaration.moved row).content ≠ []) :
    ∃ above line below open_,
      (Lexed.ofText properties text).lines = above ++ line :: below ∧
      above.length = footer.number ∧ line.isLoud = true ∧
      footer.moved row = line.strip.renumber (· + count) ∧
      (Lexed.ofText properties text).moved row = Line.plain above ++
        footer.moved row :: (Line.plain below).map (Line.renumber (· + count)) ∧
      ((Line.plain above).foldl Outline.add {}).declarations =
        front.map (Declaration.moved row) ∧
      ((Line.plain above).foldl Outline.add {}).declaration = some open_ ∧
      open_.add (footer.moved row) = .inr (declaration.moved row) := by
  have mono : StrictMono row := room ▸ strictMono_shift footer.number count
  have begun : (((Lexed.ofText properties text).moved row).foldl Outline.add {}).begun =
      front.map (Declaration.moved row) ++ declaration.moved row ::
        behind.map (Declaration.moved row) := by
    rw [← Outline.declarations_finish, ← map_cons, ← map_append, ← declared]
    exact declarations_moved mono _
  have footer' : (declaration.moved row).footer = some (footer.moved row) :=
    congrArg (Option.map (Line.moved row)) closed
  rcases Outline.exists_of_begun begun footer' with
    inline | ⟨before, after, open_, whole, isFront, isOpen, completes⟩
  · rw [inline] at occupied
    exact absurd rfl occupied
  · obtain rfl := room
    obtain ⟨above, line, below, split, length, heard, sameFooter, rfl, rfl⟩ :=
      Lexed.exists_of_moved count whole
    exact ⟨above, line, below, open_, split, length, heard, sameFooter, whole, isFront, isOpen,
      completes⟩

namespace Lint

theorem ViewSpec.ofDeclaration_moved {properties : List Text}
    (mono : StrictMono row) {declaration : Declaration}
    (member : declaration ∈ (Document.ofText properties text).declarations) :
    ofDeclaration (declaration.moved row) = (ofDeclaration declaration).reline (placeBy row) := by
  have legible := Document.legible_declarations (Lexed.run_ofText properties text)
    .refl declaration member
  have places (number : Nat) : placeBy row (some (number : Int)) = some (row number : Int) := rfl
  rw [Declaration.moved, ofDeclaration_map (Line.renumbers_moved mono) places,
    ofDeclaration_loud .refl legible]

theorem found_moved (mono : StrictMono row) :
    found {} ((Lexed.ofText ({} : FormatSettings).segmentProperties text).moved row) =
      (lintText {} text).violations.map (.reline (placeBy row)) := by
  rw [violations_lintText rfl rfl]
  exact found_map (Line.renumbers_moved mono) (placeBy row) (fun _ => rfl) {} (loudLines {} text)

/-- The dimension `pk` in front of the brace of the first view of a name. -/
theorem violations_insertKey {unit : Text} {view : Declaration} {footer : Line}
    (declared : (Document.ofText ({} : FormatSettings).segmentProperties text).declarations =
      front ++ view :: behind) (kind : view.kind = .view)
    (first : ∀ declaration ∈ front, declaration.kind = .view → declaration.name ≠ view.name)
    (closed : view.footer = some footer)
    (backed : (ViewSpec.ofDeclaration view).isTableBacked = true)
    (keyless : (ViewSpec.ofDeclaration view).dimensions.values.filter (·.primaryKey) = [])
    (blank : allBlank unit = true) (single : '\n' ∉ unit) :
    (lintText {} (Edit.apply
        ⟨⟨footer.number, 0⟩, ⟨footer.number, 0⟩, primaryKeyTemplate unit⟩ text)).violations =
      ((lintText {} text).violations.map (.reline (placeBy (shift footer.number 6)))).filter
        fun violation =>
          violation ≠ missingPrimaryKey
            ((ViewSpec.ofDeclaration view).reline (placeBy (shift footer.number 6))) ∨
          (ViewSpec.ofDeclaration view).HasKeyName := by
  generalize room : shift footer.number 6 = row
  have mono : StrictMono row := room ▸ strictMono_shift footer.number 6
  have spec : ViewSpec.ofDeclaration (view.moved row) =
      (ViewSpec.ofDeclaration view).reline (placeBy row) := by
    apply ViewSpec.ofDeclaration_moved mono
    rw [declared]
    simp
  have backed' : (ViewSpec.ofDeclaration (view.moved row)).isTableBacked = true := by
    rw [spec, ViewSpec.isTableBacked_reline, backed]
  have keyless' : (ViewSpec.ofDeclaration (view.moved row)).dimensions.values.filter
      (·.primaryKey) = [] := by
    rw [spec, ViewSpec.primaryKeys_reline, keyless]
    rfl
  have kept : (view.moved row).kind = .view := (view.kind_moved mono).trans kind
  obtain ⟨above, line, below, open_, split, length, heard, sameFooter, whole, isFront, isOpen,
    completes⟩ :=
      Document.exists_split_footer room declared closed (ViewSpec.content_ne_nil backed')
  obtain ⟨noField, child, closes, closing⟩ := OpenDeclaration.of_add_eq_inr completes
  have depth : line.depth = (footer.moved row).depth := (congrArg Line.depth sameFooter).symm
  have shape : line.shape = .blockClose := (congrArg Line.shape sameFooter).symm.trans closes
  have edited := Lexed.plain_insertKey split shape blank single
  rw [length, Line.plain_cons heard, map_cons, ← sameFooter, depth] at edited
  have loud : ∀ other ∈ Line.plain above, other.isLoud = true := by
    intro other member
    obtain ⟨origin, isOrigin, rfl⟩ := mem_map.mp member
    exact (mem_filter.mp isOrigin).2
  obtain ⟨keyed, declaredKeyed, header, content, fields⟩ := Document.declarations_insertKey
    (footer.number + 1) loud isOpen noField child closes
  rw [← closing] at header content fields
  have declaredMoved := Outline.begun_of_completes isOpen completes
    ((Line.plain below).map (Line.renumber (· + 6)))
  rw [← foldl_append, ← whole, ← Outline.declarations_finish] at declaredMoved
  have kept' : keyed.kind = .view := by
    rw [Declaration.kind, Declaration.typeName, header]
    exact kept
  have name : keyed.name = (view.moved row).name := by
    rw [Declaration.name, Declaration.name, header]
  have first' : ∀ declaration ∈ ((Line.plain above).foldl Outline.add {}).declarations,
      declaration.kind = .view → declaration.name ≠ (view.moved row).name := by
    rw [isFront, forall_mem_map]
    intro declaration member isView
    rw [declaration.kind_moved mono] at isView
    rw [declaration.name_moved mono, view.name_moved mono]
    exact first declaration member isView
  have result := found_addKey declaredMoved declaredKeyed kept kept' name first'
    (ViewSpec.ofDeclaration_addKey header content fields) backed' keyless'
  rw [← Lexed.moved, found_moved mono] at result
  rw [violations_plain rfl rfl]
  refine (congrArg (found {}) edited).trans (result.trans ?_)
  simp only [spec, ViewSpec.hasKeyName_reline]

/-- Violations on lines are told apart by their new places. -/
theorem Violation.reline_eq_iff (mono : StrictMono row)
    {other : Violation} {place : Nat} (line : violation.line = some (number : Int))
    (line' : other.line = some (place : Int)) :
    violation.reline (placeBy row) = other.reline (placeBy row) ↔ violation = other := by
  refine ⟨fun same => ?_, fun same => same ▸ rfl⟩
  have moved := congrArg Violation.line same
  have places : (some (row number : Int)) = some (row place : Int) := by
    simpa [Violation.reline, placeBy, line, line'] using moved
  have equal : number = place := mono.injective (Int.ofNat.inj (Option.some.inj places))
  obtain ⟨⟩ := violation
  obtain ⟨⟩ := other
  simp_all [Violation.reline]

/-- A violation with a path of two parts is a view without a primary key.  After the edit that is
offered for it, whatever else was found is found again, on the lines behind the new ones.  The
violation itself is gone unless the view has a dimension `pk` already. -/
theorem violations_addPrimaryKey {text unit : Text} {violation : Violation} {action : Action}
    (reported : violation ∈ (lintText {} text).violations) (path : violation.path.length = 2)
    (blank : allBlank unit = true) (single : '\n' ∉ unit)
    (offered : action ∈ actions violation text unit) (edits : action.edits ≠ []) :
    ∃ view ∈ (structuralModel {} text).views.values, ∃ footer : Nat,
      violation = missingPrimaryKey view ∧
      action.edits = [⟨⟨footer, 0⟩, ⟨footer, 0⟩, primaryKeyTemplate unit⟩] ∧
      (lintText {} (Edit.applyAll action.edits text)).violations =
        ((lintText {} text).violations.filter fun other =>
          other ≠ violation ∨ view.HasKeyName).map (.reline (placeBy (shift footer 6))) ∧
      (violation.path ∈ (lintText {} (Edit.applyAll action.edits text)).violations.map (·.path) ↔
        view.HasKeyName) := by
  obtain ⟨view, isBacked, rfl, keyless⟩ := exists_of_mem_violations reported path
  obtain ⟨isView, backed⟩ := List.mem_filter.mp isBacked
  obtain ⟨declaration, footer, isFirst, closed, edit⟩ := exists_of_mem_actions offered edits
  obtain ⟨front, behind, declared, kind, name, first⟩ := Document.exists_of_view? isFirst
  obtain ⟨before, after, otherNames, views⟩ := Model.exists_around first
  have around := views _ declaration declared kind name
  -- Names are unique among the views, so the first declaration of the name is the view.
  have unique {other : ViewSpec} (member : other ∈ (structuralModel {} text).views.values)
      (same : other.name = view.name) : other = ViewSpec.ofDeclaration declaration := by
    rw [structuralModel, around] at member
    rcases List.mem_append.mp member with inBefore | later
    · exact absurd same (otherNames other (List.mem_append_left _ inBefore))
    rcases List.mem_cons.mp later with here | inAfter
    · exact here
    · exact absurd same (otherNames other (List.mem_append_right _ inAfter))
  obtain rfl := unique isView rfl
  let missing := missingPrimaryKey (ViewSpec.ofDeclaration declaration)
  have mended : (lintText {} (Edit.applyAll action.edits text)).violations =
      ((lintText {} text).violations.filter fun other =>
        other ≠ missing ∨ (ViewSpec.ofDeclaration declaration).HasKeyName).map
          (.reline (placeBy (shift footer.number 6))) := by
    rw [edit, show Edit.applyAll [_] text = Edit.apply _ text from rfl,
      violations_insertKey declared kind first closed backed keyless blank single, List.filter_map]
    refine congrArg (List.map _) (List.filter_congr fun other member => ?_)
    obtain ⟨number, line⟩ := (breach_of_mem_violations member).exists_line
    obtain ⟨place, line'⟩ := (breach_of_mem_violations reported).exists_line
    have apart := not_congr
      (Violation.reline_eq_iff (strictMono_shift footer.number 6) line line')
    exact decide_eq_decide.mpr (or_congr_left apart)
  refine ⟨_, isView, footer.number, rfl, edit, mended, ?_⟩
  rw [mended, List.map_map]
  constructor
  · intro member
    obtain ⟨other, isKept, same⟩ := List.mem_map.mp member
    obtain ⟨isOther, kept⟩ := List.mem_filter.mp isKept
    have same' : other.path = missing.path := same
    obtain ⟨again, isAgain, rfl, -⟩ := exists_of_mem_violations isOther (by rw [same']; exact path)
    have names : again.name = (ViewSpec.ofDeclaration declaration).name := by
      simpa [missingPrimaryKey, missing] using same'
    obtain rfl := unique (List.mem_of_mem_filter isAgain) names
    exact (of_decide_eq_true kept).resolve_left fun different => different rfl
  · intro taken
    exact List.mem_map.mpr ⟨missing,
      List.mem_filter.mpr ⟨reported, decide_eq_true (.inr taken)⟩, rfl⟩

/-- A view of a table without a primary key. -/
def tableView : Text :=
  "view: v \x7b\n  sql_table_name: t ;;\n\x7d\n".toList ++
    "explore: v \x7b\n  join: w \x7b\n    sql_on: v.a = 1 ;;\n  \x7d\n\x7d".toList

theorem violations_addPrimaryKey_tableView :
    ∃ violation ∈ (lintText {} tableView).violations, violation.path.length = 2 ∧
      ∃ action ∈ actions violation tableView "  ".toList, action.edits ≠ [] ∧
        ∃ view ∈ (structuralModel {} tableView).views.values, ∃ footer : Nat,
          violation = missingPrimaryKey view ∧
          action.edits = [⟨⟨footer, 0⟩, ⟨footer, 0⟩, primaryKeyTemplate "  ".toList⟩] ∧
          (lintText {} (Edit.applyAll action.edits tableView)).violations =
            ((lintText {} tableView).violations.filter fun other =>
              other ≠ violation ∨ view.HasKeyName).map (.reline (placeBy (shift footer 6))) ∧
          (violation.path ∈
              (lintText {} (Edit.applyAll action.edits tableView)).violations.map (·.path) ↔
            view.HasKeyName) := by
  obtain ⟨violation, reported, path, action, offered, edits⟩ :
      ∃ violation ∈ (lintText {} tableView).violations, violation.path.length = 2 ∧
        ∃ action ∈ actions violation tableView "  ".toList, action.edits ≠ [] := by
    decide +kernel
  exact ⟨violation, reported, path, action, offered, edits,
    violations_addPrimaryKey reported path (by decide +kernel) (by decide +kernel) offered edits⟩

/-- A view of a table whose dimension `pk` is no primary key. -/
def shadowingView : Text :=
  "view: v \x7b\n  sql_table_name: t ;;\n  dimension: pk \x7b\n    sql: x ;;\n  \x7d\n\x7d".toList

/-- Behind a dimension of its name the new one does not count. -/
theorem mem_violations_shadowingView :
    ∃ violation ∈ (lintText {} shadowingView).violations, violation.path.length = 2 ∧
      ∃ action ∈ actions violation shadowingView "  ".toList, action.edits ≠ [] ∧
        violation ∈ (lintText {} (Edit.applyAll action.edits shadowingView)).violations := by
  decide +kernel

end Lint

end LookML
