import LookML.Document.Builder
import LookML.Proofs.Level
import Mathlib.Data.List.DropRight

/-!
# What building a document keeps

Taking in a line has a handful of outcomes, listed once by a step relation for open
declarations and one for outlines.  From these it follows what every part of a document
is: loose text, content, fields and the comments around them are runs of lines, each of
which starts where no segment is open, and no part holds a line that belongs elsewhere.
-/

namespace LookML

open Text List

namespace OpenDeclaration

/-- What taking in a line does to an open declaration. -/
inductive Step (declaration : OpenDeclaration) (line : Line) :
    OpenDeclaration ⊕ Declaration → Prop where
  | endsField {field : OpenField} :
      declaration.field = some field →
      line.shape = .blockClose → line.depth = field.opening.depth + 1 →
      Step declaration line (.inl { declaration with
        fields := declaration.fields ++ [field.close declaration.parent (some line)]
        field := none })
  | inField {field : OpenField} :
      declaration.field = some field →
      ¬(line.shape = .blockClose ∧ line.depth = field.opening.depth + 1) →
      Step declaration line (.inl { declaration with
        field := some { field with inner := field.inner ++ [line] } })
  | kept :
      declaration.field = none →
      (line.depth = declaration.childDepth →
        line.shape ≠ .blockClose ∧ line.shape ≠ .comment ∧ opensField line = false) →
      Step declaration line (.inl (declaration.keep line))
  | ends :
      declaration.field = none → line.depth = declaration.childDepth →
      line.shape = .blockClose →
      Step declaration line (.inr (declaration.close line))
  | skipped :
      declaration.field = none → line.depth = declaration.childDepth →
      line.shape = .comment → isMarker line.text = true →
      Step declaration line (.inl declaration)
  | waits :
      declaration.field = none → line.depth = declaration.childDepth →
      line.shape = .comment → isMarker line.text = false →
      Step declaration line
        (.inl { declaration with waiting := declaration.waiting ++ [line] })
  | startsField :
      declaration.field = none → line.depth = declaration.childDepth →
      opensField line = true →
      Step declaration line (.inl { declaration with
        field := some { comments := declaration.waiting, opening := line }
        waiting := [] })

theorem step_add (declaration : OpenDeclaration) (line : Line) :
    Step declaration line (declaration.add line) := by
  unfold add
  cases open_ : declaration.field with
  | some field =>
    by_cases closed : field.isClosedBy line = true
    · simp only [closed, if_true]
      simp only [OpenField.isClosedBy, Bool.and_eq_true, decide_eq_true_eq] at closed
      exact .endsField open_ closed.1 closed.2
    · simp only [closed, Bool.false_eq_true, if_false]
      simp only [OpenField.isClosedBy, Bool.and_eq_true, decide_eq_true_eq] at closed
      exact .inField open_ closed
  | none =>
    by_cases child : line.depth = declaration.childDepth
    · simp only [child, ne_eq, not_true_eq_false, if_false]
      by_cases close : line.shape = .blockClose
      · simpa only [close, if_true] using .ends open_ child close
      by_cases comment : line.shape = .comment
      · by_cases marker : isMarker line.text = true
        · simpa only [comment, marker, if_true, reduceCtorEq, if_false] using
            .skipped open_ child comment marker
        · simp only [comment, marker, if_true, reduceCtorEq, if_false, Bool.false_eq_true]
          have plain : isMarker line.text = false := by simpa using marker
          simpa only [open_] using Step.waits open_ child comment plain
      by_cases opens : opensField line = true
      · simpa only [close, comment, opens, if_true, if_false] using
          .startsField open_ child opens
      · simp only [close, comment, opens, if_false, Bool.false_eq_true]
        exact .kept open_ fun _ => ⟨close, comment, by simpa using opens⟩
    · simpa only [child, ne_eq, not_false_eq_true, if_true] using
        .kept open_ fun isChild => absurd isChild child

/-- The comments after the last field are cut off the end of the content: a run of
comments and blank lines among the direct children, less the blank lines it begins
with. -/
theorem exists_cutTail (declaration : OpenDeclaration) :
    ∃ kept blanks tail, declaration.content = kept ++ (blanks ++ tail) ∧
      declaration.cutTail = (kept, tail) ∧ (∀ line ∈ blanks, line.shape = .blank) ∧
      (∀ line ∈ blanks ++ tail, line.depth = declaration.childDepth ∧
        (line.shape = .comment ∨ line.shape = .blank)) ∧
      ∀ first ∈ tail.head?, first.shape = .comment ∧ declaration.fields ≠ [] := by
  unfold cutTail
  cases last : declaration.fields.getLast? with
  | none => exact ⟨_, [], [], (append_nil _).symm, rfl, by simp, by simp, by simp⟩
  | some field =>
    have someField : declaration.fields ≠ [] := by
      intro empty
      simp [empty] at last
    dsimp only
    split
    · rename_i hasComment
      let isTail := declaration.isTailLine field.lastLine
      let tail := (declaration.content.reverse.takeWhile isTail).reverse
      have whole : declaration.content =
          (declaration.content.reverse.dropWhile isTail).reverse ++ tail :=
        (rdropWhile_append_rtakeWhile ..).symm
      have tailLines : ∀ line ∈ tail, line.depth = declaration.childDepth ∧
          (line.shape = .comment ∨ line.shape = .blank) := by
        intro line member
        have holds := mem_takeWhile_imp (mem_reverse.mp member)
        simp only [isTail, isTailLine, Bool.and_eq_true, Bool.or_eq_true,
          decide_eq_true_eq] at holds
        exact ⟨holds.1.2, holds.2⟩
      have pieces := takeWhile_append_dropWhile (l := tail)
        (p := fun line : Line => line.shape = .blank)
      have notBlank := head?_dropWhile_not (fun line : Line => line.shape = .blank) tail
      cases left : tail.dropWhile (fun line => line.shape = .blank) with
      | nil =>
        obtain ⟨remark, member, isComment⟩ := any_eq_true.mp hasComment
        have blank := dropWhile_eq_nil_iff.mp left remark member
        simp only [decide_eq_true_eq] at isComment blank
        simp [isComment] at blank
      | cons first rest =>
        rw [left] at pieces notBlank
        refine ⟨_, tail.takeWhile fun line => line.shape = .blank,
          first :: rest, ?_, rfl, ?_, ?_, ?_⟩
        · rw [pieces]
          exact whole
        · intro line member
          simpa using mem_takeWhile_imp member
        · rwa [pieces]
        · rintro _ ⟨⟩
          have shape := (tailLines first (by rw [← pieces]; simp)).2
          exact ⟨shape.resolve_right (by simpa using notBlank), someField⟩
    · exact ⟨_, [], [], (append_nil _).symm, rfl, by simp, by simp, by simp⟩

end OpenDeclaration

namespace Outline

/-- What taking in a line does to an outline. -/
inductive Step (outline : Outline) (line : Line) : Outline → Prop where
  | within {declaration more : OpenDeclaration} :
      outline.declaration = some declaration → declaration.add line = .inl more →
      Step outline line { outline with declaration := some more }
  | completes {declaration : OpenDeclaration} {complete : Declaration} :
      outline.declaration = some declaration → declaration.add line = .inr complete →
      Step outline line { outline with
        items := outline.items ++ [.declaration complete]
        declaration := none }
  | opens {key name : Option Text} :
      outline.declaration = none → line.depth = 0 → line.shape = .blockOpen key name →
      Step outline line { items := outline.settled, declaration := some { header := line } }
  | inline {key name value : Text} :
      outline.declaration = none → line.depth = 0 → line.shape = .inlineBlock key name value →
      Step outline line
        { items := outline.settled ++ [.declaration { header := line, footer := some line }] }
  | loose :
      outline.declaration = none →
      (line.depth = 0 → (∀ key name, line.shape ≠ .blockOpen key name) ∧
        ∀ key name value, line.shape ≠ .inlineBlock key name value) →
      Step outline line { outline with loose := outline.loose ++ [line] }

theorem step_add (outline : Outline) (line : Line) : Step outline line (outline.add line) := by
  unfold add
  cases open_ : outline.declaration with
  | some declaration =>
    cases result : declaration.add line with
    | inl more => simpa only [result] using .within open_ result
    | inr complete => simpa only [result] using .completes open_ result
  | none =>
    by_cases top : line.depth = 0
    · simp only [top, if_true]
      split
      · rename_i shape
        exact .opens open_ top shape
      · rename_i shape
        exact .inline open_ top shape
      · rename_i notOpen notInline
        have loose : Step outline line { outline with loose := outline.loose ++ [line] } :=
          .loose open_ fun _ => ⟨notOpen, notInline⟩
        simpa only [open_] using loose
    · have loose : Step outline line { outline with loose := outline.loose ++ [line] } :=
        .loose open_ fun isTop => absurd isTop top
      simpa only [top, if_false, open_] using loose

end Outline

/-- A comment among the direct children of a declaration that is no section marker. -/
structure Line.IsRemark (reads : Level → Line → Prop) (line : Line) : Prop where
  read : reads (.outside 1) line
  shape : line.shape = .comment
  plain : isMarker line.text = false

/-- A line that stays in the content of a declaration when it is read there. -/
def Line.IsContent (line : Line) : Prop :=
  line.depth = 1 → line.shape ≠ .blockClose ∧ OpenDeclaration.opensField line = false ∧
    (line.shape = .comment → isMarker line.text = false)

/-- A line that starts no declaration. -/
def Line.IsLoose (line : Line) : Prop :=
  (∀ key name, line.shape ≠ .blockOpen key name) ∧
    ∀ key name value, line.shape ≠ .inlineBlock key name value

/-- A field whose lines lead to a level. -/
structure Field.Sound (reads : Level → Line → Prop) (field : Field) (final : Level) :
    Prop where
  remarks : ∀ line ∈ field.comments, line.IsRemark reads
  opens : OpenDeclaration.opensField field.opening = true
  run : Run reads (.outside 1) field.lines final
  inner : ∀ line ∈ field.inner, ¬(line.shape = .blockClose ∧ line.depth = 2)
  closing : ∀ line ∈ field.closing, line.shape = .blockClose ∧ line.depth = 2

/-- A field that was closed. -/
structure Field.Complete (reads : Level → Line → Prop) (field : Field) : Prop extends
    field.Sound reads (.outside 1) where
  closed : field.closing.isSome = true

/-- A declaration on one line. -/
structure Declaration.Inline (reads : Level → Line → Prop) (declaration : Declaration) :
    Prop where
  eq : declaration = { header := declaration.header, footer := some declaration.header }
  header : reads (.outside 0) declaration.header
  shape : ∃ key name value, declaration.header.shape = .inlineBlock key name value

/-- What open, closed and abandoned declarations share: a header, and complete fields. -/
structure Declaration.Headed (reads : Level → Line → Prop) (header : Line)
    (fields : List Field) : Prop where
  readHeader : reads (.outside 0) header
  opens : ∃ key name, header.shape = .blockOpen key name
  complete : ∀ field ∈ fields, field.Complete reads

/-- A declaration with its closing brace. -/
structure Declaration.Closed (reads : Level → Line → Prop) (declaration : Declaration) :
    Prop extends Declaration.Headed reads declaration.header declaration.fields where
  content : ∀ line ∈ declaration.content, line.IsContent
  run : Run reads (.outside 1) declaration.content (.outside 1)
  trailing : ∀ line ∈ declaration.trailing,
    line.IsRemark reads ∨ (reads (.outside 1) line ∧ line.shape = .blank)
  firstTrailing : ∀ line ∈ declaration.trailing.head?, line.shape = .comment
  withoutFields : declaration.fields = [] →
    ∀ line ∈ declaration.trailing, line.IsRemark reads
  footer : ∃ footer, declaration.footer = some footer ∧ reads (.outside 1) footer ∧
    footer.shape = .blockClose

/-- A declaration that the end of the text leaves open.  Its last field may be open too,
and then leads to the final level in place of the content. -/
structure Declaration.Abandoned (reads : Level → Line → Prop) (declaration : Declaration)
    (final : Level) : Prop where
  depth : 1 ≤ final.depth
  header : reads (.outside 0) declaration.header
  shape : ∃ key name, declaration.header.shape = .blockOpen key name
  content : ∀ line ∈ declaration.content, line.IsContent
  run : ∃ level, Run reads (.outside 1) declaration.content level ∧
    (level = .outside 1 ∨ level = final)
  fields : ∀ field ∈ declaration.fields,
    field.Complete reads ∨ (field.Sound reads final ∧ field.closing = none)
  trailing : declaration.trailing = []
  footer : declaration.footer = none

/-- A part of a document that leads to a level. -/
def Item.Sound (reads : Level → Line → Prop) (final : Level) : Item → Prop
  | .loose lines =>
    final.depth = 0 ∧ Run reads (.outside 0) lines final ∧ ∀ line ∈ lines, line.IsLoose
  | .declaration found =>
    (final = .outside 0 ∧ (found.Inline reads ∨ found.Closed reads)) ∨
      found.Abandoned reads final

/-- An open declaration whose lines lead to a level. -/
structure OpenDeclaration.Sound (reads : Level → Line → Prop)
    (declaration : OpenDeclaration) (level : Level) : Prop extends
    Declaration.Headed reads declaration.header declaration.fields where
  content : ∀ line ∈ declaration.content, line.IsContent
  waiting : ∀ line ∈ declaration.waiting, line.IsRemark reads
  depth : 1 ≤ level.depth
  run : ∃ final, Run reads (.outside 1) (declaration.content ++ declaration.waiting) final ∧
    (declaration.field = none → final = level) ∧
    (declaration.field ≠ none → final = .outside 1)
  field : ∀ field ∈ declaration.field,
    (field.close declaration.parent none).Sound reads level ∧ 2 ≤ level.depth ∧
      declaration.waiting = []

/-- What becomes of an open declaration whose lines lead to a level: it goes on, or it is
closed and leads outside everything. -/
def OpenDeclaration.Leads (reads : Level → Line → Prop) (level : Level) :
    OpenDeclaration ⊕ Declaration → Prop
  | .inl more => more.Sound reads level
  | .inr complete => level = .outside 0 ∧ complete.Closed reads

/-- An outline whose lines lead to a level. -/
structure Outline.Sound (reads : Level → Line → Prop) (outline : Outline) (level : Level) :
    Prop where
  items : ∀ item ∈ outline.items, item.Sound reads (.outside 0)
  loose : outline.declaration = none → (Item.loose outline.loose).Sound reads level
  declaration : ∀ declaration ∈ outline.declaration,
    outline.loose = [] ∧ declaration.Sound reads level

theorem opensField_iff {line : Line} : OpenDeclaration.opensField line = true ↔
    ∃ key name, line.shape = .blockOpen (some key) (some name) ∧ FieldKind.isFieldType key = true ∧
      name ≠ [] := by
  unfold OpenDeclaration.opensField
  split
  next key name shape =>
    rw [Bool.and_eq_true, Bool.not_eq_true', isEmpty_eq_false_iff]
    constructor
    · rintro ⟨isField, named⟩
      exact ⟨key, name, shape, isField, named⟩
    · rintro ⟨key', name', same, isField, named⟩
      rw [shape] at same
      cases same
      exact ⟨isField, named⟩
  next other =>
    simp only [Bool.false_eq_true, false_iff]
    rintro ⟨key, name, shape, -⟩
    exact other key name shape

/-- The lines of a complete field: its header, what it holds, and its closing brace. -/
theorem Field.Complete.parts {properties : List Text} {reads : Level → Line → Prop} {field : Field}
    (readAt : ReadsAt properties reads)
    (complete : field.Complete reads) :
    ∃ closing, field.closing = some closing ∧ reads (.outside 1) field.opening ∧
      Run reads (.outside 2) field.inner (.outside 2) ∧ reads (.outside 2) closing ∧
      closing.shape = .blockClose := by
  obtain ⟨closing, closed⟩ := Option.isSome_iff_exists.mp complete.closed
  obtain ⟨close, depth⟩ := complete.closing closing closed
  obtain ⟨key, name, opens, -⟩ := opensField_iff.mp complete.opens
  have run := complete.run
  rw [lines, closed] at run
  cases run with
  | cons read later =>
    rw [opens] at later
    obtain ⟨middle, inside, last⟩ := later.split
    cases last with
    | cons readClosing _ =>
      obtain rfl := (readAt _ _ readClosing).outside_of close (by simp) depth
      exact ⟨closing, closed, read, inside, readClosing, close⟩

section Sound

variable {final : Level}

variable {properties : List Text} {reads : Level → Line → Prop} {level : Level} {line : Line}

theorem Line.IsRemark.next {remark : Line} (isRemark : remark.IsRemark reads) (level : Level) :
    level.next remark.shape = level := by
  rw [isRemark.shape]
  rfl

/-- Comments and blank lines among the direct children of a declaration lead nowhere. -/
theorem Run.of_quiet {lines : List Line}
    (quiet : ∀ line ∈ lines, line.IsRemark reads ∨
      (reads (.outside 1) line ∧ line.shape = .blank)) :
    Run reads (.outside 1) lines (.outside 1) := by
  refine .of_steady fun line member => ?_
  rcases quiet line member with remark | ⟨read, blank⟩
  · exact ⟨remark.read, remark.next _⟩
  · exact ⟨read, by rw [blank]; rfl⟩

theorem Line.IsRemark.isContent {remark : Line} (isRemark : remark.IsRemark reads) :
    remark.IsContent := by
  intro _
  refine ⟨?_, ?_, fun _ => isRemark.plain⟩
  · simp [isRemark.shape]
  · simp [OpenDeclaration.opensField, isRemark.shape]

variable (readAt : ReadsAt properties reads)
include readAt

/-- In a sound field the header stands among the direct children of its declaration. -/
theorem Field.Sound.depth_opening {field : Field} (sound : field.Sound reads level) :
    field.opening.depth = 1 := by
  cases sound.run with
  | cons read _ => exact (readAt _ _ read).depth

namespace OpenDeclaration

variable {declaration : OpenDeclaration}

theorem Sound.childDepth_eq (sound : declaration.Sound reads level) :
    declaration.childDepth = 1 := by
  have top := (readAt _ _ sound.readHeader).depth
  simp [childDepth, top]

omit readAt in
/-- Where no field is open and the next line is read outside segments among the direct
children, the content is a run of its own. -/
theorem Sound.run_content (sound : declaration.Sound reads (.outside 1))
    (noField : declaration.field = none) :
    Run reads (.outside 1) declaration.content (.outside 1) := by
  obtain ⟨final, run, same, -⟩ := sound.run
  cases same noField
  obtain ⟨middle, front, back⟩ := run.split
  have steady := back.eq_of_steady fun line member => (sound.waiting line member).next
  rwa [← steady] at front

/-- The closing brace makes a closed declaration. -/
theorem Sound.closed_close (sound : declaration.Sound reads (.outside 1))
    (read : reads (.outside 1) line) (noField : declaration.field = none)
    (close : line.shape = .blockClose) : (declaration.close line).Closed reads := by
  have child := sound.childDepth_eq readAt
  have run := sound.run_content noField
  obtain ⟨kept, blanks, tail, content, cut, -, tailLines, begins⟩ := declaration.exists_cutTail
  have tailRead : ∀ line ∈ blanks ++ tail,
      line.IsRemark reads ∨ (reads (.outside 1) line ∧ line.shape = .blank) := by
    intro line member
    have inContent : line ∈ declaration.content := by
      rw [content]
      exact mem_append_right _ member
    obtain ⟨at_, read⟩ := run.exists_of_mem inContent
    obtain ⟨depth, shape⟩ := tailLines line member
    rw [child] at depth
    rcases shape with shape | shape
    · cases (readAt _ _ read).outside_of shape (by simp) depth
      exact .inl ⟨read, shape, (sound.content line inContent depth).2.2 shape⟩
    · cases (readAt _ _ read).outside_of shape (by simp) depth
      exact .inr ⟨read, shape⟩
  have tailSteady : ∀ line ∈ blanks ++ tail, ∀ level : Level, level.next line.shape = level := by
    intro line member level
    rcases (tailLines line member).2 with shape | shape <;> rw [shape] <;> rfl
  rw [OpenDeclaration.close, cut]
  exact
    { sound with
      content := fun line member => sound.content line (by simp [content, member])
      run := by
        rw [content] at run
        obtain ⟨middle, front, back⟩ := run.split
        rwa [← back.eq_of_steady tailSteady] at front
      trailing := forall_mem_append.mpr ⟨(forall_mem_append.mp tailRead).2,
        fun line waits => .inl (sound.waiting line waits)⟩
      firstTrailing := by
        intro first member
        cases tail with
        | nil => exact (sound.waiting first (mem_of_mem_head? member)).shape
        | cons => exact (begins first member).1
      withoutFields := by
        intro none_
        cases tail with
        | nil => exact sound.waiting
        | cons first => exact absurd none_ (begins first rfl).2
      footer := ⟨line, rfl, read, close⟩ }

theorem Sound.step {result : OpenDeclaration ⊕ Declaration} (sound : declaration.Sound reads level)
    (read : reads level line) (step : Step declaration line result) :
    Leads reads (level.next line.shape) result := by
  have child := sound.childDepth_eq readAt
  have atLine := readAt _ _ read
  cases step with
  | @endsField field isOpen close depth =>
    obtain ⟨fieldSound, -, noWaiting⟩ := sound.field field isOpen
    have opening := fieldSound.depth_opening readAt
    simp only [OpenField.close] at opening
    rw [opening] at depth
    obtain rfl := atLine.outside_of close (by simp) depth
    have run := fieldSound.run
    simp only [Field.lines, OpenField.close, Option.toList_none, append_nil] at run
    have complete : (field.close declaration.parent (some line)).Complete reads :=
      { fieldSound with
        run := by
          have whole := run.append (.single read)
          rw [close] at whole
          exact whole
        closing := by
          intro last member
          cases member
          exact ⟨close, depth⟩
        closed := rfl }
    obtain ⟨final, contentRun, -, same⟩ := sound.run
    cases same (by simp [isOpen])
    rw [close]
    exact
      { sound with
        complete := forall_mem_snoc.mpr ⟨sound.complete, complete⟩
        depth := by simp [Level.next]
        run := ⟨.outside 1, contentRun, fun _ => rfl, fun _ => rfl⟩
        field := by simp }
  | @inField field isOpen goesOn =>
    obtain ⟨fieldSound, deep, noWaiting⟩ := sound.field field isOpen
    have opening := fieldSound.depth_opening readAt
    simp only [OpenField.close] at opening
    rw [opening] at goesOn
    have stillDeep := atLine.le_depth_next deep goesOn
    obtain ⟨final, contentRun, -, same⟩ := sound.run
    cases same (by simp [isOpen])
    refine
      { sound with
        depth := by omega
        run := ⟨.outside 1, contentRun, by simp, fun _ => rfl⟩
        field := ?_ }
    intro current member
    cases member
    refine ⟨?_, stillDeep, noWaiting⟩
    have run := fieldSound.run
    simp only [Field.lines, OpenField.close, Option.toList_none, append_nil] at run
    exact
      { fieldSound with
        run := by simpa [Field.lines, OpenField.close] using run.append (.single read)
        inner := forall_mem_snoc.mpr ⟨fieldSound.inner, goesOn⟩
        closing := by simp [OpenField.close] }
  | kept noField stays =>
    obtain ⟨final, contentRun, same, -⟩ := sound.run
    cases same noField
    rw [child] at stays
    exact
      { sound with
        content := by
          refine forall_mem_snoc.mpr ⟨forall_mem_append.mpr ⟨sound.content,
            fun inside remark => (sound.waiting inside remark).isContent⟩, fun depth => ?_⟩
          obtain ⟨noClose, noComment, noField⟩ := stays depth
          exact ⟨noClose, noField, fun comment => absurd comment noComment⟩
        waiting := by simp [keep]
        depth := atLine.le_depth_next sound.depth fun both => (stays both.2).1 both.1
        run := ⟨_, by simpa [keep] using contentRun.append (.single read),
          fun _ => rfl, fun open_ => absurd noField open_⟩
        field := by simp [keep, noField] }
  | ends noField depth close =>
    obtain rfl := atLine.outside_of close (by simp) (depth.trans child)
    exact ⟨by rw [close]; rfl, sound.closed_close readAt read noField close⟩
  | skipped noField depth comment marker =>
    simpa only [comment, Level.next, Leads] using sound
  | waits noField depth comment plain =>
    obtain rfl := atLine.outside_of comment (by simp) (depth.trans child)
    obtain ⟨final, contentRun, same, -⟩ := sound.run
    cases same noField
    exact
      { sound with
        waiting := forall_mem_snoc.mpr ⟨sound.waiting, read, comment, plain⟩
        depth := by simp [comment, Level.next]
        run := ⟨_, by simpa using contentRun.append (.single read),
          fun _ => rfl, fun open_ => absurd noField open_⟩
        field := by simp [noField] }
  | startsField noField depth opens =>
    obtain ⟨key, name, shape, -⟩ := opensField_iff.mp opens
    obtain rfl := atLine.outside_of shape (by simp) (depth.trans child)
    have contentRun := sound.run_content noField
    refine
      { sound with
        waiting := by simp
        depth := by simp [shape, Level.next]
        run := ⟨.outside 1, by simpa using contentRun, by simp, fun _ => rfl⟩
        field := ?_ }
    intro current member
    cases member
    refine ⟨?_, by simp [shape, Level.next], rfl⟩
    exact
      { remarks := sound.waiting
        opens := opens
        run := by simpa [Field.lines, OpenField.close] using Run.single read
        inner := by simp [OpenField.close]
        closing := by simp [OpenField.close] }

end OpenDeclaration

namespace Outline

variable {outline : Outline}

omit readAt in
/-- Loose lines that lead back outside everything can be settled. -/
theorem Sound.settled (sound : outline.Sound reads (.outside 0))
    (noDeclaration : outline.declaration = none) :
    ∀ item ∈ outline.settled, item.Sound reads (.outside 0) := by
  unfold Outline.settled
  split
  · exact sound.items
  · exact forall_mem_snoc.mpr ⟨sound.items, sound.loose noDeclaration⟩

omit readAt in
private theorem sound_fresh {items : List Item}
    (sound : ∀ item ∈ items, item.Sound reads (.outside 0)) :
    Outline.Sound reads { items } (.outside 0) where
  items := sound
  loose := fun _ => ⟨rfl, .nil _, by simp⟩
  declaration := by simp

omit readAt in
theorem sound_empty (reads : Level → Line → Prop) : Outline.Sound reads {} (.outside 0) :=
  sound_fresh (by simp)

theorem Sound.add (sound : outline.Sound reads level) (read : reads level line) :
    (outline.add line).Sound reads (level.next line.shape) := by
  have atLine := readAt _ _ read
  have step := outline.step_add line
  generalize outline.add line = next at step
  cases step with
  | @within declaration more open_ added =>
    obtain ⟨noLoose, declarationSound⟩ := sound.declaration declaration open_
    have stepped := declarationSound.step readAt read (declaration.step_add line)
    rw [added] at stepped
    exact
      { items := sound.items
        loose := by simp
        declaration := by
          intro current member
          cases member
          exact ⟨noLoose, stepped⟩ }
  | @completes declaration complete open_ added =>
    obtain ⟨noLoose, declarationSound⟩ := sound.declaration declaration open_
    have stepped := declarationSound.step readAt read (declaration.step_add line)
    rw [added] at stepped
    obtain ⟨top, closed⟩ := stepped
    rw [top, noLoose]
    exact sound_fresh (forall_mem_snoc.mpr ⟨sound.items, .inl ⟨rfl, .inr closed⟩⟩)
  | @opens key name noDeclaration top shape =>
    obtain rfl := atLine.outside_of shape (by simp) top
    refine
      { items := sound.settled noDeclaration
        loose := by simp
        declaration := ?_ }
    intro current member
    cases member
    refine ⟨rfl, ?_⟩
    exact
      { readHeader := read
        opens := ⟨key, name, shape⟩
        complete := by simp
        content := by simp
        waiting := by simp
        depth := by simp [shape, Level.next]
        run := ⟨.outside 1, .nil _, by simp [shape, Level.next, Level.outside], by simp⟩
        field := by simp }
  | @inline key name value noDeclaration top shape =>
    obtain rfl := atLine.outside_of shape (by simp) top
    rw [shape]
    refine sound_fresh (forall_mem_snoc.mpr ⟨sound.settled noDeclaration, ?_⟩)
    exact .inl ⟨rfl, .inl ⟨rfl, read, key, name, value, shape⟩⟩
  | loose noDeclaration plain =>
    obtain ⟨top, run, looseLines⟩ := sound.loose noDeclaration
    have isLoose := plain (atLine.depth.trans top)
    refine
      { items := sound.items
        loose := fun _ => ⟨?_, run.append (.single read), forall_mem_snoc.mpr ⟨looseLines, isLoose⟩⟩
        declaration := by simp [noDeclaration] }
    cases shape : line.shape <;> simp_all [Level.next]

/-- A whole run taken in. -/
theorem Sound.foldl {lines : List Line} (run : Run reads level lines final)
    (sound : outline.Sound reads level) :
    (lines.foldl Outline.add outline).Sound reads final := by
  induction run generalizing outline with
  | nil => exact sound
  | cons read _ ih => exact ih (sound.add readAt read)

omit readAt in
/-- When the text ends, the parts before the last lead outside everything, and the last
one to the final level. -/
theorem Sound.finish (sound : outline.Sound reads level) :
    ∀ item ∈ outline.finish, item.Sound reads (.outside 0) ∨ item.Sound reads level := by
  have items : ∀ item ∈ outline.items, item.Sound reads (.outside 0) ∨ item.Sound reads level :=
    fun item member => .inl (sound.items item member)
  unfold Outline.finish
  cases open_ : outline.declaration with
  | none =>
    simp only [Outline.settled]
    split
    · exact items
    · exact forall_mem_snoc.mpr ⟨items, .inr (sound.loose open_)⟩
  | some declaration =>
    obtain ⟨-, declarationSound⟩ := sound.declaration declaration open_
    obtain ⟨final, run, closedField, openField⟩ := declarationSound.run
    refine forall_mem_snoc.mpr ⟨items, .inr (.inr ?_)⟩
    exact
      { depth := declarationSound.depth
        header := declarationSound.readHeader
        shape := declarationSound.opens
        content := forall_mem_append.mpr ⟨declarationSound.content,
          fun line remark => (declarationSound.waiting line remark).isContent⟩
        run := by
          refine ⟨final, run, ?_⟩
          cases field : declaration.field with
          | none => exact .inr (closedField field)
          | some _ => exact .inl (openField (by simp [field]))
        fields := by
          refine forall_mem_append.mpr ⟨fun field old => .inl (declarationSound.complete field old),
            forall_mem_map.mpr fun open_ isOpen => .inr ?_⟩
          exact ⟨(declarationSound.field open_ (Option.mem_toList.mp isOpen)).1, rfl⟩
        trailing := rfl
        footer := rfl }

end Outline

theorem Document.sound_items {lexed : Lexed} (run : Run reads (.outside 0) lexed.lines final) :
    ∀ item ∈ (ofLexed lexed).items, item.Sound reads (.outside 0) ∨ item.Sound reads final := by
  exact ((Outline.sound_empty reads).foldl readAt run).finish

theorem Document.exists_sound {lexed : Lexed} {item : Item}
    (run : Run reads (.outside 0) lexed.lines final) (member : item ∈ (ofLexed lexed).items) :
    ∃ last, item.Sound reads last :=
  (sound_items readAt run item member).elim (⟨_, ·⟩) (⟨_, ·⟩)

omit readAt in
theorem Document.mem_items {document : Document} {declaration : Declaration}
    (member : declaration ∈ document.declarations) : .declaration declaration ∈ document.items := by
  obtain ⟨item, isItem, isDeclaration⟩ := mem_filterMap.mp member
  cases item with
  | loose lines => cases isDeclaration
  | declaration found => exact Option.some.inj isDeclaration ▸ isItem

omit readAt in
theorem Item.Sound.field {declaration : Declaration} {field : Field}
    (sound : (Item.declaration declaration).Sound reads final)
    (member : field ∈ declaration.fields) :
    ∃ final, field.Sound reads final := by
  rcases sound with ⟨-, inline | closed⟩ | abandoned
  · rw [inline.eq] at member
    cases member
  · exact ⟨_, (closed.complete field member).toSound⟩
  · rcases abandoned.fields field member with complete | ⟨sound, -⟩
    · exact ⟨_, complete.toSound⟩
    · exact ⟨_, sound⟩

end Sound

end LookML
