import LookML.Proofs.Building
import LookML.Proofs.Members

/-!
# Building what was written

A declaration that was laid out is built again from its lines: the same header, the same
content, the fields in the order in which they were arranged, the comments behind them and
the same footer.
-/

namespace LookML

open Text Code List

namespace OpenDeclaration

/-- Lines that turn an open declaration into another one. -/
def Takes (declaration : OpenDeclaration) (lines : List Line) (result : OpenDeclaration) : Prop :=
  ∀ outline : Outline, outline.declaration = some declaration →
    lines.foldl Outline.add outline = { outline with declaration := some result }

namespace Takes

variable {declaration middle result : OpenDeclaration} {line : Line} {first second : List Line}

theorem nil (declaration : OpenDeclaration) : declaration.Takes [] declaration := by
  intro outline open_
  obtain ⟨items, loose, inner⟩ := outline
  cases open_
  rfl

theorem single (added : declaration.add line = .inl result) : declaration.Takes [line] result := by
  intro outline open_
  rw [foldl_cons, foldl_nil, Outline.add, open_]
  dsimp only
  rw [added]

theorem append (left : declaration.Takes first middle) (right : middle.Takes second result) :
    declaration.Takes (first ++ second) result := by
  intro outline open_
  rw [foldl_append, left outline open_, right _ rfl]

theorem cons (added : declaration.add line = .inl middle) (right : middle.Takes second result) :
    declaration.Takes (line :: second) result :=
  append (single added) right

/-- Lines each of which is added to the ones before it. -/
theorem of_add (state : List Line → OpenDeclaration) (taken : List Line)
    (added : ∀ line ∈ first, ∀ taken, (state taken).add line = .inl (state (taken ++ [line]))) :
    (state taken).Takes first (state (taken ++ first)) := by
  induction first generalizing taken with
  | nil =>
    rw [append_nil]
    exact .nil _
  | cons line lines ih =>
    obtain ⟨here, later⟩ := forall_mem_cons.mp added
    have rest := ih (taken ++ [line]) later
    rw [append_assoc, singleton_append] at rest
    exact .cons (here taken) rest

end Takes

section Taking

variable {header line : Line} {content waiting lines : List Line} {fields : List Field}
  (top : header.depth = 0)
include top

/-- A comment that waits for the next line. -/
theorem add_remark (depth : line.depth = 1) (comment : line.shape = .comment)
    (plain : isMarker line.text = false) :
    add ⟨header, content, fields, waiting, none⟩ line =
      .inl ⟨header, content, fields, waiting ++ [line], none⟩ := by
  simp [add, childDepth, top, depth, comment, plain]

theorem add_marker (depth : line.depth = 1) (comment : line.shape = .comment)
    (marks : isMarker line.text = true) :
    add ⟨header, content, fields, waiting, none⟩ line =
      .inl ⟨header, content, fields, waiting, none⟩ := by
  simp [add, childDepth, top, depth, comment, marks]

theorem add_content (isContent : line.IsContent)
    (other : ¬ (line.depth = 1 ∧ line.shape = .comment)) :
    add ⟨header, content, fields, waiting, none⟩ line =
      .inl ⟨header, content ++ waiting ++ [line], fields, [], none⟩ := by
  by_cases depth : line.depth = 1
  · obtain ⟨noClose, noField, -⟩ := isContent depth
    have noComment : line.shape ≠ .comment := fun comment => other ⟨depth, comment⟩
    simp [add, childDepth, top, depth, noClose, noComment, noField, keep]
  · simp [add, childDepth, top, depth, keep]

theorem add_blank (blank : line.shape = .blank) :
    add ⟨header, content, fields, waiting, none⟩ line =
      .inl ⟨header, content ++ waiting ++ [line], fields, [], none⟩ := by
  apply add_content top
  · intro _
    simp [blank, opensField]
  · simp [blank]

/-- Lines of content: the comments at their end still wait. -/
theorem takes_content (content waiting : List Line) (isContent : ∀ line ∈ lines, line.IsContent)
    (waits : ∀ line ∈ waiting, line.depth = 1 ∧ line.shape = .comment) :
    ∃ kept waiting', waiting ++ lines = kept ++ waiting' ∧
      Takes ⟨header, content, fields, waiting, none⟩ lines
        ⟨header, content ++ kept, fields, waiting', none⟩ ∧
      ∀ line ∈ waiting', line.depth = 1 ∧ line.shape = .comment := by
  induction lines generalizing content waiting with
  | nil =>
    refine ⟨[], waiting, by simp, ?_, waits⟩
    rw [append_nil]
    exact .nil _
  | cons line lines ih =>
    obtain ⟨here, later⟩ := forall_mem_cons.mp isContent
    by_cases remark : line.depth = 1 ∧ line.shape = .comment
    · have plain := (here remark.1).2.2 remark.2
      obtain ⟨kept, waiting', same, takes, waits'⟩ :=
        ih content (waiting ++ [line]) later (forall_mem_snoc.mpr ⟨waits, remark⟩)
      refine ⟨kept, waiting', ?_, .cons (add_remark top remark.1 remark.2 plain) takes, waits'⟩
      rw [← same]
      simp
    · obtain ⟨kept, waiting', same, takes, waits'⟩ :=
        ih (content ++ waiting ++ [line]) [] later (by simp)
      refine ⟨waiting ++ [line] ++ kept, waiting', ?_,
        .cons (add_content top here remark) ?_, waits'⟩
      · rw [nil_append] at same
        simp [same]
      · simpa using takes

/-- The comments above a field wait for it. -/
theorem takes_comments (waiting : List Line) (remarks : ∀ line ∈ lines, line.depth = 1 ∧
      line.shape = .comment ∧ isMarker line.text = false) :
    Takes ⟨header, content, fields, waiting, none⟩ lines
      ⟨header, content, fields, waiting ++ lines, none⟩ := by
  refine .of_add (fun waiting => ⟨header, content, fields, waiting, none⟩) waiting ?_
  intro line member taken
  obtain ⟨depth, comment, plain⟩ := remarks line member
  exact add_remark top depth comment plain

/-- The lines of a field, from the comments above it to its closing brace. -/
theorem takes_field (content : List Line) (fields : List Field) {comments inner : List Line}
    {opening closing : Line}
    (remarks : ∀ line ∈ comments, line.depth = 1 ∧ line.shape = .comment ∧
      isMarker line.text = false)
    (depth : opening.depth = 1) (opens : opensField opening = true)
    (within : ∀ line ∈ inner, ¬ (line.shape = .blockClose ∧ line.depth = 2))
    (close : closing.shape = .blockClose) (closeDepth : closing.depth = 2) :
    Takes ⟨header, content, fields, [], none⟩ (comments ++ (opening :: (inner ++ [closing])))
      ⟨header, content, fields ++ [{
        parent := ⟨header.shape.key?, header.shape.name?, header.depth⟩, comments, opening, inner
        closing := some closing }], [], none⟩ := by
  have noClose : opening.shape ≠ .blockClose := by
    intro same
    simp [opensField, same] at opens
  have noComment : opening.shape ≠ .comment := by
    intro same
    simp [opensField, same] at opens
  have opened : add ⟨header, content, fields, comments, none⟩ opening =
      .inl ⟨header, content, fields, [], some { comments, opening }⟩ := by
    simp [add, childDepth, top, depth, noClose, noComment, opens]
  have inside : Takes ⟨header, content, fields, [], some { comments, opening }⟩ inner
      ⟨header, content, fields, [], some { comments, opening, inner }⟩ := by
    refine .of_add
      (fun inner => ⟨header, content, fields, [], some { comments, opening, inner }⟩) [] ?_
    intro line member taken
    simp [add, OpenField.isClosedBy, depth, within line member]
  have closed : add ⟨header, content, fields, [], some { comments, opening, inner }⟩ closing =
      .inl ⟨header, content, fields ++ [{
        parent := ⟨header.shape.key?, header.shape.name?, header.depth⟩, comments, opening, inner
        closing := some closing }], [], none⟩ := by
    simp [add, OpenField.isClosedBy, depth, close, closeDepth, OpenField.close, parent]
  have body := inside.append (.single closed)
  have remarked : Takes ⟨header, content, fields, [], none⟩ comments
      ⟨header, content, fields, comments, none⟩ :=
    takes_comments top [] remarks
  exact remarked.append (.cons opened body)

end Taking

end OpenDeclaration

open OpenDeclaration

/-- A field and the field it is built as once it has been laid out. -/
structure Field.Echo (settings : FormatSettings) (field again : Field) : Prop where
  opening : field.opening.Echo again.opening
  inner : Echoes settings (Entry.group field.inner) (Entry.group again.inner)
  written : settings.field again = settings.field field

section Fields

variable {settings : FormatSettings} {line : Line} {depth : Nat}

theorem FormatSettings.lines_append (settings : FormatSettings) (verbatim : Bool)
    {first : List Line} {final : Level}
    (run : settings.Reads (.outside depth) first final)
    (outside : final.segment = none) (rest : List Line) :
    settings.lines verbatim (first ++ rest) = settings.lines verbatim first ++
      settings.lines verbatim rest := by
  have grouped := run.entries .refl
  have whole := grouped.groupFrom_append outside rest
  rw [lines, lines, lines, ← flatMap_append, grouped.eq_group]
  exact congrArg _ whole

theorem FormatSettings.lines_cons (settings : FormatSettings) (verbatim : Bool)
    (outside : line.shape.inSegment = false) (rest : List Line) :
    settings.lines verbatim (line :: rest) =
      settings.entry verbatim (.single line) ++ settings.lines verbatim rest := by
  rw [lines, lines, Entry.group, Entry.groupFrom_none_of_outside outside]
  rfl

theorem read_empty (read : line.ReadAt settings.segmentProperties (.outside depth))
    (empty : line.text = []) : line.shape = .blank := by
  rw [read.shape_of_outside rfl]
  apply Shape.Reading.read_eq
  exact .blank (by rw [empty]; rfl)

theorem isMarker_congr {text again : Text} (same : trim again = trim text) :
    isMarker again = isMarker text := by
  rw [isMarker, isMarker, same]

variable {first rest : List Line} {final : Level}

/-- Comments that were laid out are comments at the same place, and no markers. -/
theorem reread_remarks {comments : List Line}
    (remarks : ∀ line ∈ comments, line.IsRemark (Line.Stable settings))
    (run : settings.Reads (.outside 1) (first ++ rest) final)
    (thinned : Layout.Thinned (settings.lines false comments) (first.map Line.text)) :
    settings.Reads (.outside 1) rest final ∧
      Reread settings false comments first ∧
      ∀ line ∈ first, line.depth = 1 ∧ line.shape = .comment ∧ isMarker line.text = false := by
  have steady := Run.of_quiet fun line member => .inl (remarks line member)
  obtain ⟨middle, front, back⟩ := run.split
  obtain ⟨rfl, reread⟩ := steady.reread false rfl thinned front
  refine ⟨back, reread, ?_⟩
  intro line member
  obtain ⟨source, known, echo | ⟨inside, -⟩⟩ := reread.mem line member
  · have remark := remarks source known
    refine ⟨?_, ?_, ?_⟩
    · rw [echo.depth, remark.read.read.depth]
      rfl
    · rw [echo.shape, remark.shape]
      rfl
    · rw [isMarker_congr (echo.text remark.shape)]
      exact remark.plain
  · rw [(remarks source known).shape] at inside
    cases inside

theorem opensField_of_echo {again : Line} (echo : line.Echo again) :
    opensField again = opensField line := by
  have shape := echo.shape
  unfold opensField
  cases same : line.shape <;> rw [same] at shape <;> rw [shape] <;> rfl

/-- A field that was laid out is built again. -/
theorem reread_field {header : Line} (top : header.depth = 0) {field : Field}
    (complete : field.Complete (Line.Stable settings))
    (run : settings.Reads (.outside 1) (first ++ rest) final)
    (written : first.map Line.text = settings.field field) :
    settings.Reads (.outside 1) rest final ∧
      ∃ again, (∀ content fields, Takes ⟨header, content, fields, [], none⟩ first
          ⟨header, content, fields ++ [again], [], none⟩) ∧
        field.Echo settings again ∧ again.opening ∈ first ∧
          ∃ last ∈ first, again.lastLine = last.number := by
  have readAt := fun (level : Level) (line : Line) (stable : line.Stable settings level) =>
    stable.read
  obtain ⟨closing, closed, opening, inside, closingRead, close⟩ := complete.parts readAt
  obtain ⟨key, name, opens, -⟩ := opensField_iff.mp complete.opens
  have fieldLines : settings.lines false field.lines =
      settings.entry false (.single field.opening) ++
      (settings.lines false field.inner ++ settings.entry false (.single closing)) := by
    rw [Field.lines, closed, cons_append, settings.lines_cons false (by rw [opens]; rfl),
      settings.lines_append false (inside.mono readAt) rfl, Option.toList_some,
      settings.lines_cons false (by rw [close]; rfl)]
    simp [FormatSettings.lines, Entry.group, Entry.groupFrom]
  have whole := written
  rw [FormatSettings.field, fieldLines] at whole
  obtain ⟨comments', lines', rfl, commentTexts, whole⟩ := map_eq_append_iff.mp whole
  obtain ⟨openingLines, lines', rfl, openingText, whole⟩ := map_eq_append_iff.mp whole
  obtain ⟨inner', closingLines, rfl, innerText, closingText⟩ := map_eq_append_iff.mp whole
  obtain ⟨text, openingSingle⟩ := exists_entry_single settings false field.opening
  rw [openingSingle] at openingText
  obtain ⟨opening', rfl, rfl⟩ := map_eq_singleton_iff.mp openingText
  obtain ⟨text, closingSingle⟩ := exists_entry_single settings false closing
  rw [closingSingle] at closingText
  obtain ⟨closing', rfl, rfl⟩ := map_eq_singleton_iff.mp closingText
  -- Read the parts one after another: comments, header, what the field holds, brace.
  rw [append_assoc] at run
  obtain ⟨run, comments, remarks⟩ :=
    reread_remarks complete.remarks run (commentTexts ▸ Layout.Thinned.refl _)
  simp only [append_assoc, cons_append, nil_append] at run
  cases run with
  | cons readOpening run =>
    obtain ⟨echoOpening, staysOpening⟩ := reread_single false opening readOpening openingSingle
    rw [echoOpening.shape, opens] at run
    obtain ⟨middle, runInner, run⟩ := run.split
    obtain ⟨rfl, inner⟩ := inside.reread false rfl (innerText ▸ Layout.Thinned.refl _) runInner
    cases run with
    | cons readClosing run =>
      obtain ⟨echoClosing, staysClosing⟩ :=
        reread_single false closingRead readClosing closingSingle
      have close' : closing'.shape = .blockClose := by
        rw [echoClosing.shape, close]
        rfl
      have opens' := (opensField_of_echo echoOpening).trans complete.opens
      have within : ∀ line ∈ inner', ¬ (line.shape = .blockClose ∧ line.depth = 2) := by
        intro line member
        obtain ⟨source, known, echo | ⟨-, inSegment⟩⟩ := inner.mem line member
        · rw [echo.shape, echo.depth, Shape.tidied_eq_blockClose]
          exact complete.inner source known
        · rintro ⟨shape, -⟩
          rw [shape] at inSegment
          cases inSegment
      have takes := fun (content : List Line) (fields : List Field) =>
        takes_field top content fields remarks
          readOpening.depth opens' within close'
          readClosing.depth
      rw [close'] at run
      refine ⟨run, _, takes, ⟨echoOpening, inner.echoes, ?_⟩, by simp, closing', by simp, ?_⟩
      · have outside' : opening'.shape.inSegment = false := by
          rw [echoOpening.shape, opens]
          rfl
        have lines' := settings.lines_append false runInner rfl [closing']
        rw [← written, FormatSettings.field]
        simp only [Field.lines, Option.toList_some, cons_append]
        rw [settings.lines_cons false outside', lines',
          settings.lines_cons false (by rw [close']; rfl),
          comments.stays, staysOpening, inner.stays, staysClosing]
        simp [FormatSettings.lines, Entry.group, Entry.groupFrom]
      · simp [Field.lastLine, Field.lines, getLast?_append, getLast?_cons]

end Fields

/-- What the sections of a declaration are written as: empty lines, markers and fields. -/
inductive Piece where
  | gap
  | marker (text : Text)
  | field (field : Field)

namespace Piece

/-- The field a piece is. -/
def field? : Piece → Option Field
  | gap | marker _ => none
  | field found => some found

/-- A piece that is read as what it is. -/
def Sound (settings : FormatSettings) : Piece → Prop
  | gap => True
  | marker text => isMarker text = true
  | field found => found.Complete (Line.Stable settings)

/-- The lines of a piece. -/
def written (settings : FormatSettings) : Piece → List Text
  | gap => [[]]
  | marker text => [settings.indent 1 ++ text]
  | field found => settings.field found

end Piece

section Pieces

variable {settings : FormatSettings} {line header : Line} {depth : Nat} {first rest : List Line}
  {final : Level}

theorem head_of_isMarker {text : Text} (marks : isMarker text = true) :
    (trim text).head? = some '#' := by
  rw [isMarker, any_eq_true] at marks
  obtain ⟨category, -, same⟩ := marks
  rw [Bool.or_eq_true, beq_iff_eq, beq_iff_eq] at same
  rcases same with same | same <;> rw [same] <;> cases category <;> rfl

theorem read_marker {text : Text} (read : line.ReadAt settings.segmentProperties (.outside depth))
    (written : line.text = settings.indent 1 ++ text) (marks : isMarker text = true) :
    line.shape = .comment ∧ isMarker line.text = true := by
  have same : trim line.text = trim text := by
    rw [written, trim_append_of_allBlank (settings.allBlank_indent 1)]
  refine ⟨?_, ?_⟩
  · rw [read.shape_of_outside rfl]
    apply Shape.Reading.read_eq
    exact .comment (by rw [same]; exact head_of_isMarker marks)
  · rw [isMarker_congr same]
    exact marks

/-- The sections of a declaration are built again: fields as fields, and the empty lines
between them as content. -/
theorem reread_pieces (top : header.depth = 0) {pieces : List Piece}
    (sound : ∀ piece ∈ pieces, piece.Sound settings)
    (run : settings.Reads (.outside 1) (first ++ rest) final)
    (written : first.map Line.text = pieces.flatMap (Piece.written settings)) :
    settings.Reads (.outside 1) rest final ∧
      ∃ blanks fields',
        (∀ content fields, Takes ⟨header, content, fields, [], none⟩ first
          ⟨header, content ++ blanks, fields ++ fields', [], none⟩) ∧
        (∀ line ∈ blanks, line.shape = .blank) ∧
        Forall₂ (Field.Echo settings) (pieces.filterMap Piece.field?) fields' ∧
        ∀ field ∈ fields', ∃ last ∈ first, field.lastLine = last.number := by
  induction pieces generalizing first with
  | nil =>
    cases map_eq_nil_iff.mp written
    refine ⟨run, [], [], ?_, by simp, .nil, by simp⟩
    intro content fields
    rw [append_nil, append_nil]
    exact .nil _
  | cons piece pieces ih =>
    obtain ⟨here, later⟩ := forall_mem_cons.mp sound
    rw [flatMap_cons] at written
    obtain ⟨front, back, rfl, frontText, backText⟩ := map_eq_append_iff.mp written
    rw [append_assoc] at run
    have behind {fields : List Field} (numbers : ∀ field ∈ fields, ∃ last ∈ back,
        field.lastLine = last.number) : ∀ field ∈ fields, ∃ last ∈ front ++ back,
          field.lastLine = last.number := by
      intro field member
      obtain ⟨last, known, same⟩ := numbers field member
      exact ⟨last, mem_append_right _ known, same⟩
    cases piece with
    | gap =>
      obtain ⟨blank, rfl, empty⟩ := map_eq_singleton_iff.mp frontText
      cases run with
      | cons read run =>
        have shape := read_empty read empty
        rw [shape] at run
        obtain ⟨run, blanks, fields', takes, isBlank, echoes, numbers⟩ := ih later run backText
        refine ⟨run, blank :: blanks, fields', ?_, forall_mem_cons.mpr ⟨shape, isBlank⟩, echoes,
          behind numbers⟩
        intro content fields
        have gap : Takes ⟨header, content, fields, [], none⟩ [blank]
            ⟨header, content ++ [] ++ [blank], fields, [], none⟩ :=
          .single (add_blank top shape)
        have whole := gap.append (takes _ _)
        simpa using whole
    | marker text =>
      obtain ⟨marker, rfl, markerText⟩ := map_eq_singleton_iff.mp frontText
      cases run with
      | cons read run =>
        obtain ⟨shape, marks⟩ := read_marker read markerText here
        rw [shape] at run
        obtain ⟨run, blanks, fields', takes, isBlank, echoes, numbers⟩ := ih later run backText
        refine ⟨run, blanks, fields', ?_, isBlank, echoes, behind numbers⟩
        intro content fields
        exact .cons (add_marker top read.depth shape marks) (takes content fields)
    | field field =>
      obtain ⟨run, again, takesField, echo, -, number⟩ := reread_field top here run frontText
      obtain ⟨run, blanks, fields', takes, isBlank, echoes, numbers⟩ := ih later run backText
      refine ⟨run, blanks, again :: fields', ?_, isBlank, .cons echo echoes, ?_⟩
      · intro content fields
        have whole := (takesField content fields).append (takes content (fields ++ [again]))
        simpa using whole
      · obtain ⟨last, known, same⟩ := number
        exact forall_mem_cons.mpr ⟨⟨last, mem_append_left _ known, same⟩, behind numbers⟩

end Pieces

end LookML
