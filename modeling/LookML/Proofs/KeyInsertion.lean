import LookML.Lint.Action
import LookML.Proofs.Editing

/-!
# Adding a primary key

A dimension in front of the closing brace of a view.  The lines around it are read as before, so
the view gets one more field and nothing else changes.
-/

namespace LookML

open Text List

variable {outline : Outline} {open_ : OpenDeclaration} {footer : Line}

section Outlines

variable {line : Line}

/-- An outline that has declarations in front of those of another. -/
structure Outline.Extends (front : List Declaration) (outline other : Outline) : Prop where
  declarations : outline.declarations = front ++ other.declarations
  declaration : outline.declaration = other.declaration

namespace Outline.Extends

variable {front : List Declaration} {other : Outline}

theorem add (extends_ : outline.Extends front other) (line : Line) :
    (outline.add line).Extends front (other.add line) := by
  have settled : outline.settled.filterMap Item.declaration? =
      front ++ other.settled.filterMap Item.declaration? := by
    rw [declarations_settled, declarations_settled, extends_.declarations]
  unfold Outline.add
  rw [extends_.declaration]
  cases open_ : other.declaration with
  | some declaration =>
    dsimp only
    cases declaration.add line with
    | inl more => exact ⟨extends_.declarations, rfl⟩
    | inr complete =>
      refine ⟨?_, rfl⟩
      have before := extends_.declarations
      simp only [Outline.declarations, filterMap_append] at before ⊢
      rw [before, append_assoc]
  | none =>
    have loose : Extends front { items := outline.items, loose := outline.loose ++ [line] }
        { items := other.items, loose := other.loose ++ [line] } :=
      ⟨extends_.declarations, rfl⟩
    dsimp only
    split
    · split
      · exact ⟨settled, rfl⟩
      · refine ⟨?_, rfl⟩
        simp only [Outline.declarations, filterMap_append, settled, append_assoc]
      · exact loose
    · exact loose

theorem foldl (extends_ : outline.Extends front other) (lines : List Line) :
    (lines.foldl Outline.add outline).Extends front (lines.foldl Outline.add other) := by
  induction lines generalizing outline other with
  | nil => exact extends_
  | cons line lines ih => exact ih (extends_.add line)

theorem begun (extends_ : outline.Extends front other) : outline.begun = front ++ other.begun := by
  rw [Outline.begun, extends_.declarations, extends_.declaration, append_assoc]
  rfl

end Outline.Extends

/-- What is declared when a line completes a declaration. -/
theorem Outline.begun_of_completes
    {complete : Declaration} (isOpen : outline.declaration = some open_)
    (completes : open_.add line = .inr complete) (lines : List Line) :
    ((line :: lines).foldl Outline.add outline).begun =
      outline.declarations ++ complete :: (lines.foldl Outline.add {}).begun := by
  have behind : (outline.add line).Extends (outline.declarations ++ [complete]) {} := by
    rw [Outline.add, isOpen]
    dsimp only
    rw [completes]
    refine ⟨?_, rfl⟩
    simp [Outline.declarations, Item.declaration?]
  rw [foldl_cons, (behind.foldl lines).begun, append_assoc]
  rfl

theorem Outline.begun_of_none (none_ : outline.declaration = none) :
    outline.begun = outline.declarations ++ [] := by
  rw [begun, none_]
  rfl

/-- A line that completes a declaration is its closing brace. -/
theorem OpenDeclaration.of_add_eq_inr
    {complete : Declaration} (completes : open_.add line = .inr complete) :
    open_.field = none ∧ line.depth = open_.childDepth ∧ line.shape = .blockClose ∧
      complete = open_.close line := by
  have step := open_.step_add line
  rw [completes] at step
  cases step with
  | ends noField child closes => exact ⟨noField, child, closes, rfl⟩

/-- A declaration with a closing brace is there before a line, or the line holds it, or the line
is the brace and completes it. -/
theorem Outline.exists_of_begun_add {front behind : List Declaration} {declaration : Declaration}
    (begun : (outline.add line).begun = front ++ declaration :: behind)
    (closed : declaration.footer = some footer) :
    (∃ rest, outline.begun = front ++ declaration :: rest) ∨
      declaration = { header := footer, footer := some footer } ∨
      (outline.declarations = front ∧ line = footer ∧
        ∃ open_, outline.declaration = some open_ ∧ open_.add footer = .inr declaration) := by
  have settled := outline.declarations_settled
  -- Only the last declaration can be new.
  have last {final : Declaration} {rest : List Declaration}
      (now : (outline.add line).begun = outline.declarations ++ [final])
      (old : outline.begun = outline.declarations ++ rest) :
      (∃ rest, outline.begun = front ++ declaration :: rest) ∨
        (outline.declarations = front ∧ declaration = final) := by
    rw [now] at begun
    rcases eq_nil_or_concat behind with rfl | ⟨between, ending, rfl⟩
    · obtain ⟨sameFront, sameLast⟩ := append_inj' begun rfl
      exact .inr ⟨sameFront, (cons.inj sameLast).1.symm⟩
    · rw [concat_eq_append, ← cons_append, ← append_assoc] at begun
      obtain ⟨declared, -⟩ := append_inj' begun rfl
      rw [old, declared, append_assoc]
      exact .inl ⟨between ++ rest, rfl⟩
  have step := outline.step_add line
  generalize outline.add line = next at step last begun
  cases step with
  | @within open_ more isOpen result =>
    have old : outline.begun = outline.declarations ++ [open_.abandon] := by
      simp [Outline.begun, isOpen]
    rcases last rfl old with earlier | ⟨-, rfl⟩
    · exact .inl earlier
    · cases closed
  | @completes open_ complete isOpen result =>
    have now : Outline.begun { outline with
        items := outline.items ++ [.declaration complete], declaration := none } =
        outline.declarations ++ [complete] := by
      simp [Outline.begun, Outline.declarations, Item.declaration?]
    have old : outline.begun = outline.declarations ++ [open_.abandon] := by
      simp [Outline.begun, isOpen]
    rcases last now old with earlier | ⟨declared, rfl⟩
    · exact .inl earlier
    · have brace : line = footer := by
        rw [(OpenDeclaration.of_add_eq_inr result).2.2.2] at closed
        exact Option.some.inj closed
      exact .inr (.inr ⟨declared, brace, open_, isOpen, brace ▸ result⟩)
  | @opens key name none_ =>
    have now :
        Outline.begun { items := outline.settled, declaration := some { header := line } } =
        outline.declarations ++ [OpenDeclaration.abandon { header := line }] := by
      rw [Outline.begun, Outline.declarations, settled]
      rfl
    rcases last now (Outline.begun_of_none none_) with earlier | ⟨-, rfl⟩
    · exact .inl earlier
    · cases closed
  | @inline key name value none_ =>
    have now : Outline.begun
        { items := outline.settled ++ [.declaration { header := line, footer := some line }] } =
        outline.declarations ++ [{ header := line, footer := some line }] := by
      simp [Outline.begun, Outline.declarations, settled, Item.declaration?]
    rcases last now (Outline.begun_of_none none_) with earlier | ⟨-, rfl⟩
    · exact .inl earlier
    · cases closed
      exact .inr (.inl rfl)
  | loose none_ => exact .inl ⟨behind, begun⟩

/-- A declaration with a closing brace is written on one line, or its brace completes it. -/
theorem Outline.exists_of_begun {lines : List Line} {front behind : List Declaration}
    {declaration : Declaration}
    (begun : (lines.foldl add {}).begun = front ++ declaration :: behind)
    (closed : declaration.footer = some footer) :
    declaration = { header := footer, footer := some footer } ∨
      ∃ before after open_, lines = before ++ footer :: after ∧
        (before.foldl add {}).declarations = front ∧
        (before.foldl add {}).declaration = some open_ ∧
        open_.add footer = .inr declaration := by
  induction lines using List.reverseRecOn generalizing behind with
  | nil => exact absurd begun (by simp [Outline.begun, Outline.declarations])
  | append_singleton lines line ih =>
    rw [foldl_append, foldl_cons, foldl_nil] at begun
    rcases exists_of_begun_add begun closed with
      ⟨rest, old⟩ | inline | ⟨declared, rfl, open_, isOpen, completes⟩
    · rcases ih old with inline | ⟨before, after, open_, whole, found⟩
      · exact .inl inline
      · exact .inr ⟨before, after ++ [line], open_, by rw [whole]; simp, found⟩
    · exact .inl inline
    · exact .inr ⟨lines, [], open_, rfl, declared, isOpen, completes⟩

end Outlines

section Key

/-- The header of the dimension `pk`. -/
def keyHeader (number depth : Nat) : Line where
  number := number
  text := "dimension: pk \x7b".toList
  depth := depth
  shape := .blockOpen (some "dimension".toList) (some "pk".toList)

/-- The properties of the dimension `pk`. -/
def keyInner (number depth : Nat) : List Line :=
  [⟨number, "primary_key: yes".toList, depth, .property "primary_key".toList "yes".toList⟩,
    ⟨number + 1, "type: string".toList, depth, .property "type".toList "string".toList⟩,
    ⟨number + 2, "sql: $\x7bTABLE\x7d.id ;;".toList, depth,
      .segmentInline "sql".toList "$\x7bTABLE\x7d.id ;;".toList⟩]

/-- The closing brace of the dimension `pk`. -/
def keyFooter (number depth : Nat) : Line where
  number := number
  text := "\x7d".toList
  depth := depth
  shape := .blockClose

/-- The lines of the dimension `pk` among the children of a block. -/
def keyLines (number depth : Nat) : List Line :=
  keyHeader number depth :: keyInner (number + 1) (depth + 1) ++
    [keyFooter (number + 4) (depth + 1)]

/-- The dimension `pk`. -/
def keyField (parent : Enclosing) (comments : List Line) (number depth : Nat) : Field where
  parent := parent
  comments := comments
  opening := keyHeader number depth
  inner := keyInner (number + 1) (depth + 1)
  closing := some (keyFooter (number + 4) (depth + 1))

/-- Among the children of an open declaration the lines are one more field. -/
theorem Outline.foldl_keyLines
    (isOpen : outline.declaration = some open_) (noField : open_.field = none) (number : Nat) :
    (keyLines number open_.childDepth).foldl add outline =
      { outline with
        declaration := some { open_ with
          fields := open_.fields ++
            [keyField open_.parent open_.waiting number open_.childDepth]
          waiting := [] } } := by
  have isField : OpenDeclaration.opensField (keyHeader number open_.childDepth) = true :=
    show (FieldKind.isFieldType "dimension".toList && !"pk".toList.isEmpty) = true by decide +kernel
  have starts : outline.add (keyHeader number open_.childDepth) =
      { outline with
        declaration := some { open_ with
          field := some { comments := open_.waiting, opening := keyHeader number open_.childDepth }
          waiting := [] } } := by
    rw [add, isOpen]
    dsimp only
    rw [OpenDeclaration.add, noField]
    dsimp only
    have child : (keyHeader number open_.childDepth).depth = open_.childDepth := rfl
    have notClose : (keyHeader number open_.childDepth).shape ≠ .blockClose := Shape.noConfusion
    have notComment : (keyHeader number open_.childDepth).shape ≠ .comment := Shape.noConfusion
    rw [if_neg (not_not.mpr child), if_neg notClose, if_neg notComment, if_pos isField]
  rw [keyLines, cons_append, foldl_cons, starts]
  simp [keyInner, keyFooter, keyHeader, keyField, add, OpenDeclaration.add,
    OpenField.isClosedBy, OpenField.close, OpenDeclaration.parent, noField]

theorem keyField_properties (parent : Enclosing) (comments : List Line) (number depth : Nat) :
    (keyField parent comments number depth).body.properties =
      [("primary_key".toList, "yes".toList), ("type".toList, "string".toList),
        ("sql".toList, "$\x7bTABLE\x7d.id".toList)] := by
  have grouped : Entry.group (keyInner (number + 1) (depth + 1)) =
      [.single ⟨number + 1, _, depth + 1, .property "primary_key".toList "yes".toList⟩,
        .single ⟨number + 2, _, depth + 1, .property "type".toList "string".toList⟩,
        .grouped ⟨"sql".toList, "$\x7bTABLE\x7d.id ;;".toList, true,
          ⟨number + 3, "sql: $\x7bTABLE\x7d.id ;;".toList, depth + 1, _⟩, [], none⟩] := rfl
  have members : Member.read (depth + 1) (Entry.group (keyInner (number + 1) (depth + 1))) =
      [.property "primary_key".toList (Code.stripTerminator "yes".toList),
        .property "type".toList (Code.stripTerminator "string".toList),
        .property "sql".toList (trim (joinWith ['\n']
          ([Code.stripTerminator "$\x7bTABLE\x7d.id ;;".toList].filter (!·.isEmpty))))] := by
    rw [grouped, Member.read, if_pos rfl]
    dsimp only
    rw [Member.read, if_pos rfl]
    dsimp only
    rw [Member.read, Segment.depth, if_pos rfl, Member.read]
    simp only [Segment.text, map_nil, append_nil, Option.toList_none, filter_nil]
  have body : (keyField parent comments number depth).body.properties = Keyed.ofOccurrences
      ((Member.read (depth + 1) (Entry.group (keyInner (number + 1) (depth + 1)))).filterMap
        Member.property?) := rfl
  rw [body, members]
  decide +kernel

/-- Lines that are neither blank nor comments have no others among their content. -/
theorem Outline.loud_content {lines : List Line} (loud : ∀ line ∈ lines, line.isLoud = true)
    (isOpen : (lines.foldl add {}).declaration = some open_) :
    ∀ line ∈ open_.content, line.isLoud = true := by
  have start : Outline.Quiets {} {} := ⟨rfl, rfl, fun _ none_ => by cases none_⟩
  have quiet := (start.foldl lines).declaration
  rw [filter_eq_self.mpr loud, isOpen] at quiet
  intro line member
  rw [Option.some.inj quiet] at member
  exact (mem_filter.mp member).2

/-- In front of the brace that completes a declaration the lines give it one more field. -/
theorem Document.declarations_insertKey {before after : List Line} (number : Nat)
    (loud : ∀ line ∈ before, line.isLoud = true)
    (isOpen : (before.foldl Outline.add {}).declaration = some open_)
    (noField : open_.field = none) (depth : footer.depth = open_.childDepth)
    (closes : footer.shape = .blockClose) :
    ∃ keyed : Declaration,
      (ofLexed ⟨before ++ (keyLines number footer.depth ++ footer :: after), []⟩).declarations =
        (before.foldl Outline.add {}).declarations ++
          keyed :: (after.foldl Outline.add {}).begun ∧
      keyed.header = (open_.close footer).header ∧ keyed.content = (open_.close footer).content ∧
      keyed.fields = (open_.close footer).fields ++
        [keyField open_.parent open_.waiting number footer.depth] := by
  let more : OpenDeclaration :=
    { open_ with
      fields := open_.fields ++ [keyField open_.parent open_.waiting number footer.depth]
      waiting := [] }
  have content := Outline.loud_content loud isOpen
  have completes : more.add footer = .inr (more.close footer) := by
    have none_ : more.field = none := noField
    have child : ¬ footer.depth ≠ more.childDepth := not_not.mpr depth
    rw [OpenDeclaration.add, none_]
    dsimp only
    rw [if_neg child, if_pos closes]
  refine ⟨more.close footer, ?_, rfl, ?_, rfl⟩
  · rw [declarations, ofLexed, Outline.declarations_finish, foldl_append, foldl_append,
      depth, Outline.foldl_keyLines isOpen noField, ← depth]
    exact Outline.begun_of_completes rfl completes after
  · have kept : more.cutTail = (more.content, []) := OpenDeclaration.cutTail_of_loud content
    rw [OpenDeclaration.close, OpenDeclaration.close, kept, OpenDeclaration.cutTail_of_loud content]

end Key

section Insertion

variable {properties : List Text} {text : Text}

theorem Nesting.classify_cons_of_read {nesting : Nesting} (outside : nesting.segment = none)
    {written : Text} {shape : Shape} (reads : Shape.read properties written = shape) {number : Nat}
    {texts : List Text} :
    nesting.classify properties number (written :: texts) =
      ⟨number, written, nesting.depth, shape⟩ ::
        (nesting.advance ⟨number, written, nesting.depth, shape⟩).classify properties (number + 1)
          texts := by
  have line : nesting.line properties number written = ⟨number, written, nesting.depth, shape⟩ := by
    rw [Nesting.line, Nesting.shape, outside, reads]
  rw [classify, line]

/-- The lines that hold the dimension `pk`, without the blanks in front of them. -/
def keyTexts : List Text :=
  [[], "dimension: pk \x7b".toList, "primary_key: yes".toList, "type: string".toList,
    "sql: $\x7bTABLE\x7d.id ;;".toList, "\x7d".toList]

/-- Outside segments the lines of the dimension are read as what they are. -/
theorem Nesting.classify_keyTexts {nesting : Nesting} (outside : nesting.segment = none)
    (number : Nat) :
    nesting.classify ({} : FormatSettings).segmentProperties number keyTexts =
      ⟨number, [], nesting.depth, .blank⟩ :: keyLines (number + 1) nesting.depth := by
  have header : Shape.read ({} : FormatSettings).segmentProperties "dimension: pk \x7b".toList =
      .blockOpen (some "dimension".toList) (some "pk".toList) := by decide +kernel
  have key : Shape.read ({} : FormatSettings).segmentProperties "primary_key: yes".toList =
      .property "primary_key".toList "yes".toList := by decide +kernel
  have type : Shape.read ({} : FormatSettings).segmentProperties "type: string".toList =
      .property "type".toList "string".toList := by decide +kernel
  have sql : Shape.read ({} : FormatSettings).segmentProperties "sql: $\x7bTABLE\x7d.id ;;".toList =
      .segmentInline "sql".toList "$\x7bTABLE\x7d.id ;;".toList := by decide +kernel
  have footer : Shape.read ({} : FormatSettings).segmentProperties "\x7d".toList = .blockClose := by
    decide +kernel
  have blank : Shape.read ({} : FormatSettings).segmentProperties [] = .blank := by decide +kernel
  obtain ⟨blocks, segment⟩ := nesting
  cases outside
  rw [keyTexts, classify_cons_of_read rfl blank, classify_cons_of_read rfl header,
    classify_cons_of_read rfl key, classify_cons_of_read rfl type, classify_cons_of_read rfl sql,
    classify_cons_of_read rfl footer]
  rfl

theorem Text.trim_lines_insertKey {unit line : Text} {before after : List Text}
    (whole : text.lines = before ++ line :: after) (blank : allBlank unit = true)
    (single : '\n' ∉ unit) :
    (Edit.apply ⟨⟨before.length, 0⟩, ⟨before.length, 0⟩, Lint.primaryKeyTemplate unit⟩
      text).lines.map trim = (before ++ (keyTexts ++ line :: after)).map trim := by
  let inserted : List Text :=
    [[], unit ++ "dimension: pk \x7b".toList, unit ++ unit ++ "primary_key: yes".toList,
      unit ++ unit ++ "type: string".toList, unit ++ unit ++ "sql: $\x7bTABLE\x7d.id ;;".toList,
      unit ++ "\x7d".toList]
  have template : Lint.primaryKeyTemplate unit = inserted.flatMap (· ++ ['\n']) := by
    simp [Lint.primaryKeyTemplate, inserted, joinLines, joinWith]
  have trimmed : inserted.map trim = keyTexts.map trim := by
    simp only [inserted, keyTexts, map_cons, map_nil, append_assoc, trim_append_of_allBlank blank]
  have feedless : ∀ line ∈ inserted, '\n' ∉ line := by
    simp [inserted, single]
  have kept : inserted.map (trim ∘ dropReturn) = inserted.map trim :=
    map_congr_left fun line _ => trim_dropReturn line
  rw [template, Edit.lines_insertion whole (cons_ne_nil _ _) feedless, map_append, map_append,
    map_append, map_append, map_map, kept, trimmed]

/-- With the dimension in front of a closing brace the lines are those of the text, with those
of the dimension between them. -/
theorem Lexed.plain_insertKey {unit : Text} {before after : List Line}
    (whole : (ofText ({} : FormatSettings).segmentProperties text).lines =
      before ++ footer :: after)
    (closes : footer.shape = .blockClose) (blank : allBlank unit = true) (single : '\n' ∉ unit) :
    Line.plain (ofText ({} : FormatSettings).segmentProperties
        (Edit.apply ⟨⟨before.length, 0⟩, ⟨before.length, 0⟩, Lint.primaryKeyTemplate unit⟩
          text)).lines =
      Line.plain before ++ (keyLines (before.length + 1) footer.depth ++
        (Line.plain (footer :: after)).map (Line.renumber (· + 6))) := by
  have texts : text.lines = before.map Line.text ++ footer.text :: after.map Line.text := by
    rw [← map_cons, ← map_append, ← whole, Lexed.text_ofText]
  have lines := Text.trim_lines_insertKey texts blank single
  rw [length_map] at lines
  let nesting := before.foldl Nesting.advance {}
  have outside : nesting.level = .outside footer.depth := by
    obtain ⟨here, -⟩ := cons.inj (classify_split whole).2
    have read := nesting.readAt_line ({} : FormatSettings).segmentProperties before.length
      footer.text
    rw [← here] at read
    exact read.eq_outside (by simp [closes]) (by simp [closes])
  have noSegment : nesting.segment = none :=
    Option.map_eq_none_iff.mp (congrArg Level.segment outside)
  have depth : nesting.depth = footer.depth := congrArg Level.depth outside
  have inserted := Nesting.classify_keyTexts noSegment before.length
  have back : ((nesting.classify ({} : FormatSettings).segmentProperties before.length
      keyTexts).foldl Nesting.advance nesting).level = nesting.level := by
    rw [inserted, Nesting.level_foldl, outside]
    rfl
  have stripped := strip_insert whole lines back
  have key : (nesting.classify ({} : FormatSettings).segmentProperties before.length keyTexts).map
      Line.strip = ⟨before.length, [], footer.depth, .blank⟩ ::
        keyLines (before.length + 1) footer.depth := by
    rw [inserted, depth]
    rfl
  have loud : (⟨before.length, [], footer.depth, .blank⟩ ::
      keyLines (before.length + 1) footer.depth).filter Line.isLoud =
      keyLines (before.length + 1) footer.depth := rfl
  rw [key] at stripped
  rw [Line.plain_eq, stripped, filter_append, filter_append, loud, ← Line.plain_eq,
    filter_map, Line.plain_eq (footer :: after)]
  rfl

end Insertion

end LookML
