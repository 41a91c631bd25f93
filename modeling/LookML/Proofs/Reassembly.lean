import LookML.Proofs.Arrangement
import LookML.Proofs.Partition
import LookML.Proofs.Rebuilding

/-!
# Documents built from what was written

A document that was laid out is built again from its lines, declaration by declaration.
Every declaration has the type and the name it had, the same properties and blocks, and its
fields in the order in which they were arranged.  If no declaration has to move its last
comments, laying the document out once more gives the same lines.
-/

namespace LookML

open Text Code List

variable {line header : Line} {fields : List Field} {group sort : Bool}

namespace Layout

/-- Empty lines at the end are left out. -/
theorem collapseFrom_append_blanks {blanks : List Text} (empty : ∀ line ∈ blanks, line = [])
    (started gap : Bool) (lines : List Text) :
    collapseFrom started gap (lines ++ blanks) = collapseFrom started gap lines := by
  induction lines generalizing started gap with
  | nil =>
    rw [nil_append]
    induction blanks generalizing gap with
    | nil => rfl
    | cons blank blanks ih =>
      have later := ih (forall_mem_cons.mp empty).2
      have skipped : collapseFrom started gap (blank :: blanks) =
          collapseFrom started true blanks := by
        simp [collapseFrom, empty blank mem_cons_self]
      rw [skipped, later]
      rfl
  | cons line lines ih =>
    rw [cons_append, collapseFrom, collapseFrom, ih, ih]

/-- Runs of empty lines that were reduced to one stay as they are. -/
theorem collapseFrom_collapseFrom (lines : List Text) :
    (∀ started, collapseFrom started false (collapseFrom started false lines) =
      collapseFrom started false lines) ∧
    ∀ started, collapseFrom started false (collapseFrom started true lines) =
      collapseFrom started true lines := by
  induction lines with
  | nil => exact ⟨fun _ => rfl, fun _ => rfl⟩
  | cons line lines ih =>
    by_cases empty : line = []
    · subst empty
      exact ⟨ih.2, ih.2⟩
    · refine ⟨fun started => ?_, fun started => ?_⟩
      · simp [collapseFrom, empty, ih.1]
      · cases started <;> simp [collapseFrom, empty, ih.1]

theorem collapseBlankLines_append {blanks : List Text} (empty : ∀ line ∈ blanks, line = [])
    (lines : List Text) :
    collapseBlankLines (collapseBlankLines lines ++ blanks) = collapseBlankLines lines := by
  rw [collapseBlankLines, collapseFrom_append_blanks empty]
  exact (collapseFrom_collapseFrom lines).1 false

theorem collapseBlankLines_cons {line : Text} (occupied : line ≠ []) (lines : List Text) :
    collapseBlankLines (line :: lines) = line :: collapseFrom true false lines := by
  simp [collapseBlankLines, collapseFrom, occupied]

end Layout

section Sections

variable {again : List Field}

variable {settings : FormatSettings}

theorem Line.Echo.key? {again : Line} (echo : line.Echo again) :
    again.shape.key? = line.shape.key? := by
  rw [echo.shape]
  cases line.shape <;> rfl

theorem Line.Echo.name? {again : Line} (echo : line.Echo again) :
    again.shape.name? = line.shape.name? := by
  rw [echo.shape]
  cases line.shape <;> rfl

theorem Field.Echo.name {field again : Field} (echo : field.Echo settings again) :
    again.name = field.name := by
  rw [Field.name, Field.name, echo.opening.name?]

theorem Field.Echo.typeName {field again : Field} (echo : field.Echo settings again) :
    again.typeName = field.typeName := by
  rw [Field.typeName, Field.typeName, echo.opening.key?]

theorem Field.Echo.kind {field again : Field} (echo : field.Echo settings again) :
    again.kind = field.kind := by
  rw [Field.kind, Field.kind, echo.typeName]

/-- A section and the section that its fields make once they have been laid out. -/
structure Section.Echo (settings : FormatSettings) (part again : Section) : Prop where
  category : again.category = part.category
  marked : again.marked = part.marked
  fields : List.Forall₂ (Field.Echo settings) part.fields again.fields

theorem Section.Echo.isEmpty {part other : Section} (echo : part.Echo settings other) :
    other.fields.isEmpty = part.fields.isEmpty := by
  rw [Bool.eq_iff_iff, isEmpty_iff_length_eq_zero, isEmpty_iff_length_eq_zero,
    echo.fields.length_eq]

/-- Fields that were laid out are written and stand as before. -/
theorem Field.Echo.written_all (echoes : Forall₂ (Field.Echo settings) fields again) :
    again.map settings.field = fields.map settings.field ∧
      again.map Field.name = fields.map Field.name ∧
      again.head?.map depth = fields.head?.map depth := by
  induction echoes with
  | nil => exact ⟨rfl, rfl, rfl⟩
  | cons here _ ih =>
    refine ⟨?_, ?_, congrArg some here.opening.depth⟩
    · rw [map_cons, map_cons, here.written, ih.1]
    · rw [map_cons, map_cons, here.name, ih.2.1]

theorem Section.Echo.chunks {part other : Section} (echo : part.Echo settings other) :
    settings.chunks other = settings.chunks part := by
  have markers : other.markers? = part.markers? := by
    rw [Section.markers?, Section.markers?, echo.category, echo.marked]
  obtain ⟨written, -, depth⟩ := Field.Echo.written_all echo.fields
  have gaps (fields : List Field) : fields.flatMap (fun field => [] :: settings.field field) =
      (fields.map settings.field).flatMap (fun text => [] :: text) := by
    rw [flatMap_map]
  rw [FormatSettings.chunks, FormatSettings.chunks, markers]
  cases part.markers? with
  | none => exact written
  | some markers =>
    obtain ⟨first, last⟩ := markers
    dsimp only
    rw [depth, gaps, gaps, written]

theorem Field.Echo.filter
    (echoes : Forall₂ (Field.Echo settings) fields again) (category : Category) :
    Forall₂ (Field.Echo settings)
      (fields.filter fun field => Category.ofKind field.kind = category)
      (again.filter fun field => Category.ofKind field.kind = category) := by
  refine rel_filter (fun field other echo => ?_) echoes
  dsimp only
  rw [echo.kind]

theorem Field.Echo.pairwise (echoes : Forall₂ (Field.Echo settings) fields again)
    (sorted : fields.Pairwise fun first second => nameLe first.name second.name = true) :
    again.Pairwise fun first second => nameLe first.name second.name = true := by
  have sortedNames : (fields.map Field.name).Pairwise fun first second =>
      nameLe first second = true :=
    pairwise_map.mpr sorted
  rw [← (Field.Echo.written_all echoes).2.1] at sortedNames
  exact pairwise_map.mp sortedNames

/-- Fields that were arranged and laid out are arranged in the same sections. -/
theorem Section.echo_arrange
    (echoes : Forall₂ (Field.Echo settings) (arranged group sort fields) again) :
    Forall₂ (Section.Echo settings) (arrange group sort fields)
      (arrange group sort again) := by
  have length := echoes.length_eq
  rw [arranged, (perm_arrange group sort fields).length_eq] at length
  by_cases empty : fields = []
  · subst empty
    cases length_eq_zero_iff.mp length.symm
    exact .nil
  have someAgain : again ≠ [] := by
    rintro rfl
    exact empty (length_eq_zero_iff.mp length)
  by_cases arranges : (group || sort) = true
  · have each (category : Category) : (ofCategory group sort fields category).Echo settings
        (ofCategory group sort again category) := by
      have members := Field.Echo.filter echoes category
      rw [filter_arranged arranges] at members
      refine ⟨rfl, rfl, ?_⟩
      cases sort with
      | false => exact members
      | true =>
        have sorted := Field.Echo.pairwise members (pairwise_ofCategory group fields category)
        have stays : (ofCategory group true again category).fields =
            again.filter fun field => Category.ofKind field.kind = category :=
          mergeSort_of_pairwise sorted
        rw [stays]
        exact members
    have neither : ¬ (!group && !sort) = true := by
      rw [← Bool.not_or, arranges]
      simp
    rw [arrange, arrange, if_neg (by simpa using empty), if_neg neither,
      if_neg (by simpa using someAgain), if_neg neither]
    refine rel_filter (fun part other echo => by dsimp only; rw [echo.isEmpty]) ?_
    rw [forall₂_map_left_iff, forall₂_map_right_iff, forall₂_same]
    exact fun category _ => each category
  · obtain ⟨rfl, rfl⟩ : group = false ∧ sort = false := by
      simpa using arranges
    have whole : arranged false false fields = fields := by
      simp [arranged, arrange, empty]
    rw [whole] at echoes
    have single (members : List Field) (some_ : members ≠ []) :
        arrange false false members = [⟨none, members, false⟩] := by
      simp [arrange, some_]
    rw [single fields empty, single again someAgain]
    exact .cons ⟨rfl, rfl, echoes⟩ .nil

theorem FormatSettings.chunks_arrange (echoes : Forall₂ (Field.Echo settings)
      (Section.arranged settings.groupFields settings.sortFields fields) again) :
    (Section.arrange settings.groupFields settings.sortFields again).flatMap settings.chunks =
      (Section.arrange settings.groupFields settings.sortFields fields).flatMap
        settings.chunks := by
  have parts := Section.echo_arrange echoes
  generalize Section.arrange settings.groupFields settings.sortFields again = others at parts
  generalize Section.arrange settings.groupFields settings.sortFields fields = sections at parts
  induction parts with
  | nil => rfl
  | cons here _ ih => rw [flatMap_cons, flatMap_cons, here.chunks, ih]

end Sections

namespace Section

/-- The pieces of a section: its fields with an empty line before each, between its markers. -/
def pieces (part : Section) : List Piece :=
  match part.markers? with
  | none => part.fields.flatMap fun field => [.gap, .field field]
  | some (first, last) =>
    .gap :: .marker first ::
      (part.fields.flatMap (fun field => [.gap, .field field]) ++ [.marker last])

variable {settings : FormatSettings} {part : Section}

theorem field?_gaps (fields : List Field) :
    (fields.flatMap fun field => [Piece.gap, Piece.field field]).filterMap Piece.field? =
      fields := by
  induction fields with
  | nil => rfl
  | cons field fields ih =>
    have here : [Piece.gap, Piece.field field].filterMap Piece.field? = [field] := rfl
    rw [flatMap_cons, filterMap_append, here, ih]
    rfl

theorem field?_pieces (part : Section) : part.pieces.filterMap Piece.field? = part.fields := by
  rw [pieces]
  split
  next => exact field?_gaps part.fields
  next first last _ =>
    have none_ : [Piece.marker last].filterMap Piece.field? = [] := rfl
    rw [filterMap_cons_none rfl, filterMap_cons_none rfl, filterMap_append,
      field?_gaps, none_, append_nil]

/-- The markers of a section are taken for markers. -/
theorem isMarker_markers {first last : Text} {category : Category}
    (has : category.hasMarkers = true)
    (markers : (category.startMarker, category.endMarker) = (first, last)) :
    isMarker first = true ∧ isMarker last = true := by
  cases markers
  cases category with
  | others => cases has
  | _ => decide

/-- The pieces of a section are what its chunks are written as. -/
theorem written_pieces (occupied : part.fields ≠ [])
    (depth : ∀ field ∈ part.fields, field.depth = 1) :
    part.pieces.flatMap (Piece.written settings) =
      (settings.chunks part).flatMap fun chunk => [] :: chunk := by
  have gaps (fields : List Field) :
      (fields.flatMap fun field => [Piece.gap, Piece.field field]).flatMap
        (Piece.written settings) =
        fields.flatMap fun field => [] :: settings.field field := by
    rw [flatMap_assoc]
    simp [Piece.written]
  rw [pieces, FormatSettings.chunks]
  cases part.markers? with
  | none =>
    dsimp only
    rw [gaps, flatMap_map]
  | some markers =>
    obtain ⟨first, last⟩ := markers
    have one : (part.fields.head?.map Field.depth).getD 0 = 1 := by
      cases fields : part.fields with
      | nil => exact absurd fields occupied
      | cons field _ => exact depth field (by simp [fields])
    dsimp only
    rw [one, flatMap_cons, flatMap_cons, flatMap_append, gaps]
    simp [Piece.written]

theorem occupied_of_mem_arrange
    (inSections : part ∈ arrange group sort fields) : part.fields ≠ [] := by
  unfold arrange at inSections
  split at inSections
  next => cases inSections
  next occupied =>
    split at inSections
    next =>
      cases mem_singleton.mp inSections
      simpa using occupied
    next => simpa using (mem_filter.mp inSections).2

theorem isMarker_of_mem_arrange (inSections : part ∈ arrange group sort fields) {first last : Text}
    (markers : part.markers? = some (first, last)) :
    isMarker first = true ∧ isMarker last = true := by
  unfold arrange at inSections
  split at inSections
  next => cases inSections
  next =>
    split at inSections
    next =>
      cases mem_singleton.mp inSections
      cases markers
    next =>
      obtain ⟨category, -, rfl⟩ := mem_map.mp (mem_filter.mp inSections).1
      change (if (group && category.hasMarkers) = true then
        some (category.startMarker, category.endMarker) else none) = some (first, last) at markers
      split at markers
      next marked =>
        exact isMarker_markers (Bool.and_eq_true_iff.mp marked).2 (Option.some.inj markers)
      next => cases markers

/-- The pieces of arranged fields are read as what they are. -/
theorem sound_pieces (complete : ∀ field ∈ fields, field.Complete (Line.Stable settings))
    (inSections : part ∈ arrange group sort fields) :
    ∀ piece ∈ part.pieces, piece.Sound settings := by
  have gaps : ∀ piece ∈ part.fields.flatMap fun field => [Piece.gap, Piece.field field],
      piece.Sound settings := by
    intro piece member
    obtain ⟨field, isField, known⟩ := mem_flatMap.mp member
    rcases mem_pair.mp known with rfl | rfl
    · exact trivial
    · exact complete field (mem_of_mem_arrange inSections field isField)
  unfold pieces
  split
  next => exact gaps
  next first last markers =>
    obtain ⟨start, stop⟩ := isMarker_of_mem_arrange inSections markers
    simp only [forall_mem_cons, forall_mem_append, not_mem_nil, false_imp_iff, implies_true,
      and_true]
    exact ⟨trivial, start, gaps, stop⟩

theorem pieces_eq_cons (occupied : part.fields ≠ []) : ∃ more, part.pieces = .gap :: more := by
  unfold pieces
  split
  next =>
    obtain ⟨field, fields, same⟩ := exists_cons_of_ne_nil occupied
    exact ⟨_, by rw [same]; rfl⟩
  next => exact ⟨_, rfl⟩

end Section

section Tail

variable {α : Type} {test : α → Bool}

theorem takeWhile_append_of_none (front : List α) {back : List α}
    (none_ : ∀ a ∈ back, test a = false) :
    (front ++ back).takeWhile test = front.takeWhile test ∧
      (front ++ back).dropWhile test = front.dropWhile test ++ back := by
  induction front with
  | nil =>
    cases back with
    | nil => exact ⟨rfl, rfl⟩
    | cons a back => simp [none_ a mem_cons_self]
  | cons a front ih =>
    by_cases passes : test a = true
    · simp [passes, ih.1, ih.2]
    · simp [passes]

namespace OpenDeclaration

variable {declaration : OpenDeclaration} {field : Field} {front blanks tail : List Line}

/-- The comments behind the last field are cut off where the content before them was read
before that field. -/
theorem cutTail_eq (last : declaration.fields.getLast? = some field)
    (content : declaration.content = front ++ (blanks ++ tail))
    (before : ∀ line ∈ front, line.number ≤ field.lastLine)
    (areBlank : ∀ line ∈ blanks, line.shape = .blank)
    (tailLines : ∀ line ∈ tail, declaration.isTailLine field.lastLine line = true)
    (first : ∀ line ∈ tail.head?, line.shape = .comment) :
    ∃ kept, (∀ line ∈ kept, line.shape = .blank) ∧ declaration.cutTail = (front ++ kept, tail) := by
  have frontLines : ∀ line ∈ front.reverse, declaration.isTailLine field.lastLine line = false := by
    intro line member
    have less := before line (mem_reverse.mp member)
    simp only [isTailLine, Bool.and_eq_false_iff, decide_eq_false_iff_not]
    omega
  obtain ⟨takes, drops⟩ := takeWhile_append_of_none blanks.reverse frontLines
  have reversed : declaration.content.reverse =
      tail.reverse ++ (blanks.reverse ++ front.reverse) := by
    simp [content]
  have inTail : ∀ line ∈ tail.reverse, declaration.isTailLine field.lastLine line = true :=
    fun line member => tailLines line (mem_reverse.mp member)
  have taken :
      (declaration.content.reverse.takeWhile (declaration.isTailLine field.lastLine)).reverse =
      (blanks.reverse.takeWhile (declaration.isTailLine field.lastLine)).reverse ++ tail := by
    rw [reversed, takeWhile_append_of_pos inTail, takes]
    simp
  have dropped :
      (declaration.content.reverse.dropWhile (declaration.isTailLine field.lastLine)).reverse =
      front ++ (blanks.reverse.dropWhile (declaration.isTailLine field.lastLine)).reverse := by
    rw [reversed, dropWhile_append_of_pos inTail, drops]
    simp
  have takenBlank :
      ∀ line ∈ (blanks.reverse.takeWhile (declaration.isTailLine field.lastLine)).reverse,
      line.shape = .blank := fun line member =>
    areBlank line (mem_reverse.mp ((takeWhile_sublist _).subset (mem_reverse.mp member)))
  unfold cutTail
  rw [last]
  dsimp only
  rw [taken, dropped]
  cases tail with
  | nil =>
    refine ⟨blanks, areBlank, ?_⟩
    rw [if_neg, content, append_nil]
    rw [append_nil, any_eq_true]
    rintro ⟨line, member, comment⟩
    simp [takenBlank line member] at comment
  | cons line tail =>
    have comment := first line rfl
    refine ⟨(blanks.reverse.dropWhile (declaration.isTailLine field.lastLine)).reverse,
      fun line member => ?_, ?_⟩
    · exact areBlank line
        (mem_reverse.mp ((dropWhile_sublist _).subset (mem_reverse.mp member)))
    · rw [if_pos (by simp [comment]), dropWhile_append_of_pos (by simpa using takenBlank)]
      simp [comment]

theorem cutTail_of_no_fields (none_ : declaration.fields = []) :
    declaration.cutTail = (declaration.content, []) := by
  rw [cutTail, none_]
  rfl

end OpenDeclaration

end Tail

open Layout OpenDeclaration

/-- A declaration without fields whose content ends in a comment and blank lines.  Without
the blank lines the comment is read as standing before the closing brace. -/
def Declaration.Dangles (declaration : Declaration) : Prop :=
  declaration.fields = [] ∧ declaration.trailing = [] ∧
    ∃ last ∈ (declaration.content.filter fun line => line.shape ≠ .blank).getLast?,
      last.shape = .comment

instance (declaration : Declaration) : Decidable declaration.Dangles :=
  inferInstanceAs (Decidable (_ ∧ _ ∧ ∃ last ∈ _, _))

/-- A declaration and the declaration it is built as once it has been laid out. -/
structure Declaration.Echo (settings : FormatSettings) (declaration again : Declaration) :
    Prop where
  header : declaration.header.Echo again.header
  content : Tells settings (Entry.group declaration.content) (Entry.group again.content)
  fields : List.Forall₂ (Field.Echo settings)
    (Section.arranged settings.groupFields settings.sortFields declaration.fields) again.fields
  written : ¬ declaration.Dangles → settings.declaration again = settings.declaration declaration

section Contents

variable {settings : FormatSettings} {lines again : List Line}

/-- Content that was laid out is read as content. -/
theorem Reread.isContent (reread : Reread settings false lines again)
    (isContent : ∀ line ∈ lines, line.IsContent) : ∀ line ∈ again, line.IsContent := by
  intro line member depth
  obtain ⟨source, known, echo | ⟨-, inside⟩⟩ := reread.mem line member
  · obtain ⟨noClose, noField, noMark⟩ := isContent source known (echo.depth.symm.trans depth)
    refine ⟨?_, (opensField_of_echo echo).trans noField, fun comment => ?_⟩
    · rw [echo.shape]
      exact fun close => noClose ((Shape.tidied_eq_blockClose _).mp close)
    · have sourceComment : source.shape = .comment := by
        have shape := echo.shape
        rw [comment] at shape
        cases same : source.shape <;> rw [same] at shape <;> cases shape
      rw [isMarker_congr (echo.text sourceComment)]
      exact noMark sourceComment
  · refine ⟨fun close => ?_, ?_, fun comment => ?_⟩
    · simp [close, Shape.inSegment] at inside
    · unfold opensField
      split
      next shape => simp [shape, Shape.inSegment] at inside
      next => rfl
    · simp [comment, Shape.inSegment] at inside

/-- A line by itself at the end was the last one that is not blank. -/
theorem Echoes.exists_last {entries rest all : List Entry} {last : Line}
    (echoes : Echoes settings entries all) (whole : all = rest ++ [.single last]) :
    ∃ (front : List Entry) (line : Line) (blanks : List Line),
      entries = front ++ .single line :: blanks.map .single ∧ line.Echo last ∧
        ∀ blank ∈ blanks, blank.shape = .blank := by
  induction echoes generalizing rest with
  | nil => cases rest <;> cases whole
  | @dropped blank entries all isBlank later ih =>
    obtain ⟨front, line, blanks, rfl, echo, areBlank⟩ := ih whole
    exact ⟨.single blank :: front, line, blanks, rfl, echo, areBlank⟩
  | @cons entry again entries all echo later ih =>
    cases rest with
    | cons first rest =>
      obtain ⟨-, same⟩ := cons.inj whole
      obtain ⟨front, line, blanks, rfl, echo, areBlank⟩ := ih same
      exact ⟨entry :: front, line, blanks, rfl, echo, areBlank⟩
    | nil =>
      obtain ⟨rfl, rfl⟩ := cons.inj whole
      have onlyBlanks : ∃ blanks : List Line, entries = blanks.map .single ∧
          ∀ blank ∈ blanks, blank.shape = .blank := by
        clear ih whole echo
        generalize none_ : ([] : List Entry) = all at later
        induction later with
        | nil => exact ⟨[], rfl, by simp⟩
        | @dropped blank _ _ isBlank _ ih =>
          obtain ⟨blanks, rfl, areBlank⟩ := ih none_
          exact ⟨blank :: blanks, rfl, forall_mem_cons.mpr ⟨isBlank, areBlank⟩⟩
        | cons => cases none_
      obtain ⟨blanks, rfl, areBlank⟩ := onlyBlanks
      cases echo with
      | single echo => exact ⟨[], _, blanks, rfl, echo, areBlank⟩

end Contents

/-- The comments behind the fields of a declaration, with the empty line before them. -/
def FormatSettings.trailing (settings : FormatSettings) (lines : List Line) : List Text :=
  if lines.isEmpty then [] else [] :: collapseBlankLines (settings.lines false lines)

section Declarations

variable {settings : FormatSettings} {first rest : List Line} {final : Level}

/-- The comments behind the fields of a declaration, written and read. -/
theorem reread_trailing {trailing : List Line}
    (lines : ∀ line ∈ trailing, line.IsRemark (Line.Stable settings) ∨
      (line.Stable settings (.outside 1) ∧ line.shape = .blank))
    (starts : ∀ line ∈ trailing.head?, line.shape = .comment) (some_ : trailing ≠ [])
    (run : settings.Reads (.outside 1) (first ++ rest) final)
    (written : first.map Line.text = collapseBlankLines (settings.lines false trailing)) :
    settings.Reads (.outside 1) rest final ∧
      settings.trailing first = settings.trailing trailing ∧
      (∀ line ∈ first.head?, line.shape = .comment) ∧
      ∀ line ∈ first, line.IsContent ∧ ∃ source ∈ trailing, source.Echo line := by
  have steady := Run.of_quiet lines
  have isContent : ∀ line ∈ trailing, line.IsContent := by
    intro line member
    rcases lines line member with remark | ⟨-, blank⟩
    · exact remark.isContent
    · intro _
      simp [blank, opensField]
  have outside : ∀ line ∈ trailing, line.shape.inSegment = false := by
    intro line member
    rcases lines line member with ⟨-, shape, -⟩ | ⟨-, shape⟩ <;> rw [shape] <;> rfl
  obtain ⟨middle, front, back⟩ := run.split
  obtain ⟨rfl, reread⟩ :=
    steady.reread false rfl (written ▸ thinned_collapseBlankLines _) front
  have starting : ∃ head tail, first = head :: tail ∧ head.shape = .comment := by
    obtain ⟨remark, others, rfl⟩ := exists_cons_of_ne_nil some_
    have comment := starts remark rfl
    cases steady with
    | cons stable _ =>
      obtain ⟨text, single, occupied⟩ := occupied_single false stable.read (by simp [comment])
      rw [settings.lines_cons false (by rw [comment]; rfl), single, singleton_append] at written
      rw [collapseBlankLines_cons occupied] at written
      obtain ⟨head, tail, rfl, rfl, -⟩ := map_eq_cons_iff.mp written
      cases front with
      | cons read _ =>
        have echo := (reread_single false stable read single).1
        exact ⟨head, tail, rfl, by rw [echo.shape, comment]; rfl⟩
  obtain ⟨head, tail, rfl, comment⟩ := starting
  refine ⟨back, ?_, ?_, fun line member => ⟨reread.isContent isContent line member, ?_⟩⟩
  · have collapsed :=
      collapseBlankLines_append (forall_mem_nil _) (settings.lines false trailing)
    rw [append_nil, ← written, ← reread.stays] at collapsed
    rw [FormatSettings.trailing, FormatSettings.trailing, if_neg (by simp),
      if_neg (by simpa using some_), collapsed, reread.stays, written]
  · rintro line ⟨⟩
    exact comment
  · obtain ⟨source, known, echo | ⟨inside, -⟩⟩ := reread.mem line member
    · exact ⟨source, known, echo⟩
    · rw [outside source known] at inside
      cases inside

/-- The sections of a declaration, written and read. -/
theorem reread_sections (top : header.depth = 0) (some_ : fields ≠ [])
    (complete : ∀ field ∈ fields, field.Complete (Line.Stable settings))
    (run : settings.Reads (.outside 1) (first ++ rest) final)
    (written : first.map Line.text =
      ((Section.arrange settings.groupFields settings.sortFields fields).flatMap
        settings.chunks).flatMap
        fun chunk => [] :: chunk) :
    settings.Reads (.outside 1) rest final ∧
      ∃ blanks fields',
        (∀ content waiting, Takes ⟨header, content, [], waiting, none⟩ first
          ⟨header, content ++ waiting ++ blanks, fields', [], none⟩) ∧
        (∀ line ∈ blanks, line.shape = .blank) ∧
        Forall₂ (Field.Echo settings)
          (Section.arranged settings.groupFields settings.sortFields fields) fields' ∧
        ∀ field ∈ fields', ∃ last ∈ first, field.lastLine = last.number := by
  have readAt := fun (level : Level) (line : Line) (stable : line.Stable settings level) =>
    stable.read
  have depth : ∀ field ∈ fields, field.depth = 1 :=
    fun field member => (complete field member).depth_opening readAt
  have arranged := (Section.perm_arrange settings.groupFields settings.sortFields fields).length_eq
  rw [Section.arranged]
  have pieces : ∀ sections ⊆ Section.arrange settings.groupFields settings.sortFields fields,
      (sections.flatMap settings.chunks).flatMap (fun chunk => [] :: chunk) =
        (sections.flatMap Section.pieces).flatMap (Piece.written settings) ∧
      (∀ piece ∈ sections.flatMap Section.pieces, piece.Sound settings) ∧
      (sections.flatMap Section.pieces).filterMap Piece.field? =
        sections.flatMap Section.fields := by
    intro sections known
    induction sections with
    | nil => exact ⟨rfl, by simp, rfl⟩
    | cons part sections ih =>
      obtain ⟨here, later⟩ := cons_subset.mp known
      obtain ⟨texts, sound, members⟩ := ih later
      refine ⟨?_, ?_, ?_⟩
      · rw [flatMap_cons, flatMap_append, texts, flatMap_cons, flatMap_append,
          Section.written_pieces (Section.occupied_of_mem_arrange here)
            fun field member => depth field (Section.mem_of_mem_arrange here field member)]
      · rw [flatMap_cons, forall_mem_append]
        exact ⟨Section.sound_pieces complete here, sound⟩
      · rw [flatMap_cons, filterMap_append, members, Section.field?_pieces, flatMap_cons]
  obtain ⟨texts, sound, members⟩ := pieces _ (List.Subset.refl _)
  rw [texts] at written
  rw [← members]
  -- The first piece is an empty line, which ends the waiting of comments.
  obtain ⟨more, starts⟩ : ∃ more,
      (Section.arrange settings.groupFields settings.sortFields fields).flatMap
      Section.pieces = .gap :: more := by
    cases sections : Section.arrange settings.groupFields settings.sortFields fields with
    | nil =>
      rw [sections] at arranged
      exact absurd (length_eq_zero_iff.mp arranged.symm) some_
    | cons part sections' =>
      have here : part ∈ Section.arrange settings.groupFields settings.sortFields fields := by
        simp [sections]
      obtain ⟨more, same⟩ := Section.pieces_eq_cons (Section.occupied_of_mem_arrange here)
      exact ⟨_, by rw [flatMap_cons, same]; rfl⟩
  rw [starts] at written sound ⊢
  obtain ⟨blank, later, rfl, empty, laterText⟩ := map_eq_cons_iff.mp written
  cases run with
  | cons read run =>
    have shape := read_empty read empty
    rw [shape] at run
    obtain ⟨run, blanks, fields', takes, isBlank, echoes, numbers⟩ := reread_pieces top
      (forall_mem_cons.mp sound).2 run laterText
    refine ⟨run, blank :: blanks, fields', ?_, forall_mem_cons.mpr ⟨shape, isBlank⟩, echoes, ?_⟩
    · intro content waiting
      have gap : Takes ⟨header, content, [], waiting, none⟩ [blank]
          ⟨header, content ++ waiting ++ [blank], [], [], none⟩ :=
        .single (add_blank top shape)
      have whole := gap.append (takes _ _)
      simpa using whole
    · intro field member
      obtain ⟨last, known, same⟩ := numbers field member
      exact ⟨last, mem_cons_of_mem _ known, same⟩

theorem group_append_plain {depth : Nat}
    (run : settings.Reads (.outside depth) first final)
    (outside : final.segment = none) (plain : ∀ line ∈ rest, line.shape.inSegment = false) :
    Entry.group (first ++ rest) = Entry.group first ++ rest.map .single := by
  have grouped := run.entries .refl
  rw [grouped.eq_group, Entry.group, grouped.groupFrom_append outside]
  congr 1
  clear grouped run
  induction rest with
  | nil => rfl
  | cons line rest ih =>
    obtain ⟨here, later⟩ := forall_mem_cons.mp plain
    rw [Entry.groupFrom_none_of_outside here, ih later]
    rfl

theorem lines_of_blank {blanks : List Line} (areBlank : ∀ line ∈ blanks, line.shape = .blank) :
    ∀ text ∈ settings.lines false blanks, text = [] := by
  induction blanks with
  | nil => intro text member; cases member
  | cons blank blanks ih =>
    obtain ⟨here, later⟩ := forall_mem_cons.mp areBlank
    have written : settings.entry false (.single blank) = [[]] := by
      simp only [FormatSettings.entry, here]
    rw [settings.lines_cons false (by rw [here]; rfl), written, singleton_append]
    exact forall_mem_cons.mpr ⟨rfl, ih later⟩

end Declarations

/-- The lines between the header of a declaration and its closing brace. -/
def FormatSettings.interior (settings : FormatSettings) (declaration : Declaration) : List Text :=
  collapseBlankLines (settings.lines false declaration.content)
    ++ (((Section.arrange settings.groupFields settings.sortFields declaration.fields).flatMap
        settings.chunks).flatMap (fun chunk => [] :: chunk)
      ++ settings.trailing declaration.trailing)

/-- What the interior of a declaration was read as. -/
structure OpenDeclaration.Rebuilds (settings : FormatSettings) (declaration : Declaration)
    (result : OpenDeclaration) : Prop where
  content : Tells settings (Entry.group declaration.content) (Entry.group result.cutTail.1)
  fields : List.Forall₂ (Field.Echo settings)
    (Section.arranged settings.groupFields settings.sortFields declaration.fields) result.fields
  interior : ¬ declaration.Dangles → ∀ footer,
    settings.interior (result.close footer) = settings.interior declaration

section Interiors

variable {content : List Line}

variable {settings : FormatSettings} {declaration : Declaration}
    {first rest : List Line} {final : Level}

theorem FormatSettings.declaration_eq_interior {key name : Option Text} {footer : Line}
    (opens : declaration.header.shape = .blockOpen key name)
    (closes : declaration.footer = some footer) :
    settings.declaration declaration =
      settings.line declaration.header ::
        (settings.interior declaration ++ [settings.line footer]) := by
  rw [FormatSettings.declaration, opens, closes, FormatSettings.interior, FormatSettings.trailing]
  simp

/-- The content of a declaration, written and read. -/
structure Declaration.ContentEcho (settings : FormatSettings) (declaration : Declaration)
    (content : List Line) : Prop where
  run : Run (Line.ReadAt settings.segmentProperties) (.outside 1) content (.outside 1)
  reread : Reread settings false declaration.content content
  written : content.map Line.text =
    collapseBlankLines (settings.lines false declaration.content)

/-- What becomes of a declaration whose interior was read. -/
def OpenDeclaration.Reaches (settings : FormatSettings) (declaration : Declaration) (header : Line)
    (lines : List Line) : Prop :=
  ∃ result, Takes { header } lines result ∧ result.header = header ∧
    result.field = none ∧ result.Rebuilds settings declaration

/-- A declaration whose content was read with nothing but blank lines behind it. -/
theorem rebuilds_of_cut {kept : List Line} {result : OpenDeclaration}
    (echo : declaration.ContentEcho settings content)
    (areBlank : ∀ line ∈ kept, line.shape = .blank) (cut : result.cutTail.1 = content ++ kept)
    (fields : Forall₂ (Field.Echo settings)
      (Section.arranged settings.groupFields settings.sortFields declaration.fields) result.fields)
    (trailing : settings.trailing (result.cutTail.2 ++ result.waiting) =
      settings.trailing declaration.trailing) :
    result.Rebuilds settings declaration where
  content := by
    rw [cut, group_append_plain echo.run rfl fun line member => by rw [areBlank line member]; rfl]
    refine echo.reread.echoes.tells.append_silent fun entry member => ?_
    obtain ⟨line, isKept, rfl⟩ := mem_map.mp member
    exact .inl (areBlank line isKept)
  fields := fields
  interior := by
    intro _ footer
    rw [FormatSettings.interior, FormatSettings.interior]
    simp only [close]
    rw [cut, settings.lines_append false echo.run rfl, echo.reread.stays, echo.written,
      collapseBlankLines_append (lines_of_blank areBlank),
      FormatSettings.chunks_arrange fields, trailing]

/-- A declaration without fields whose last comments were read as standing before the
closing brace. -/
theorem rebuilds_of_dangling {kept waiting : List Line}
    (stable : Run (Line.Stable settings) (.outside 1) declaration.content (.outside 1))
    (echo : declaration.ContentEcho settings content) (whole : content = kept ++ waiting)
    (waits : ∀ line ∈ waiting, line.depth = 1 ∧ line.shape = .comment)
    (noFields : declaration.fields = []) (noTrailing : declaration.trailing = []) :
    Rebuilds settings declaration ⟨header, kept, [], waiting, none⟩ := by
  have cut : cutTail ⟨header, kept, [], waiting, none⟩ = (kept, []) :=
    cutTail_of_no_fields rfl
  have fields : Forall₂ (Field.Echo settings)
      (Section.arranged settings.groupFields settings.sortFields declaration.fields) [] := by
    rw [noFields]
    exact .nil
  rcases eq_nil_or_concat waiting with rfl | ⟨others, last, rfl⟩
  · rw [append_nil] at whole
    subst whole
    refine rebuilds_of_cut echo (forall_mem_nil _) ?_ fields ?_
    · rw [cut, append_nil]
    · rw [cut, noTrailing]
      rfl
  · rw [concat_eq_append] at whole waits
    have plain : ∀ line ∈ others ++ [last], line.shape.inSegment = false := by
      intro line member
      rw [(waits line member).2]
      rfl
    have run := echo.run
    rw [whole] at run
    obtain ⟨middle, front, back⟩ := run.split
    have steady := back.eq_of_steady fun line member level => by rw [(waits line member).2]; rfl
    rw [← steady] at front
    have grouped : Entry.group content = Entry.group kept ++ (others ++ [last]).map .single := by
      rw [whole]
      exact group_append_plain front rfl plain
    have echoes := echo.reread.echoes
    rw [grouped] at echoes
    refine ⟨?_, fields, fun stays => absurd ?_ stays⟩
    · rw [cut]
      refine echoes.tells.of_append_silent fun entry member => ?_
      obtain ⟨line, isWaiting, rfl⟩ := mem_map.mp member
      exact .inr (waits line isWaiting).2
    · rw [map_append, ← append_assoc] at echoes
      obtain ⟨front, line, blanks, entries, echo, areBlank⟩ := echoes.exists_last rfl
      have lines := (stable.entries fun _ _ stable => stable.read).flatMap_lines
      have comment : line.shape = .comment := by
        have shape := echo.shape
        rw [(waits last (by simp)).2] at shape
        cases same : line.shape <;> rw [same] at shape <;> cases shape
      have whole : declaration.content = front.flatMap Entry.lines ++ line :: blanks := by
        rw [entries] at lines
        simpa [flatMap_map, Entry.lines] using lines.symm
      have none_ : blanks.filter (fun line => line.shape ≠ .blank) = [] := by
        simpa using areBlank
      refine ⟨noFields, noTrailing, line, ?_, comment⟩
      rw [whole, filter_append, filter_cons_of_pos (by simp [comment]), none_]
      exact getLast?_concat

/-- The comments behind the fields with the empty line before them, written and read. -/
theorem reread_behind (closed : declaration.Closed (Line.Stable settings))
    (some_ : declaration.trailing ≠ [])
    (run : settings.Reads (.outside 1) (first ++ rest) final)
    (written : first.map Line.text = settings.trailing declaration.trailing) :
    ∃ blank remarks, first = blank :: remarks ∧ blank.shape = .blank ∧
      settings.Reads (.outside 1) rest final ∧
      settings.trailing remarks = settings.trailing declaration.trailing ∧
      (∀ line ∈ remarks.head?, line.shape = .comment) ∧
      ∀ line ∈ remarks, line.IsContent ∧ ∃ source ∈ declaration.trailing, source.Echo line := by
  rw [FormatSettings.trailing, if_neg (by simpa using some_)] at written
  obtain ⟨blank, remarks, rfl, empty, remarksText⟩ := map_eq_cons_iff.mp written
  cases run with
  | cons read run =>
    have shape := read_empty read empty
    rw [shape] at run
    exact ⟨blank, remarks, rfl, shape,
      reread_trailing closed.trailing closed.firstTrailing some_ run remarksText⟩

/-- What is read behind the fields stands in the declaration, and is a comment or blank. -/
theorem Declaration.Closed.remark_of_echo (closed : declaration.Closed (Line.Stable settings))
    {source line : Line} (known : source ∈ declaration.trailing) (echo : source.Echo line) :
    line.depth = 1 ∧ (line.shape = .comment ∨ line.shape = .blank) := by
  rw [echo.depth, echo.shape]
  rcases closed.trailing source known with remark | ⟨stable, blank⟩
  · exact ⟨remark.read.read.depth, .inl (by rw [remark.shape]; rfl)⟩
  · exact ⟨stable.read.depth, .inr (by rw [blank]; rfl)⟩

theorem trailing_eq_nil {trailing : List Line} (noTrailing : declaration.trailing = [])
    (written : trailing.map Line.text = settings.trailing declaration.trailing) :
    trailing = [] := by
  rw [noTrailing] at written
  exact map_eq_nil_iff.mp written

theorem Declaration.ContentEcho.takes (top : header.depth = 0)
    (isContent : ∀ line ∈ declaration.content, line.IsContent)
    (echo : declaration.ContentEcho settings content) :
    ∃ kept waiting, content = kept ++ waiting ∧
      Takes { header } content ⟨header, kept, [], waiting, none⟩ ∧
      ∀ line ∈ waiting, line.depth = 1 ∧ line.shape = .comment :=
  takes_content top [] [] (echo.reread.isContent isContent) (forall_mem_nil _)

/-- The content and the fields of a declaration, written and read, up to its last field. -/
structure OpenDeclaration.FieldsEcho (settings : FormatSettings) (declaration : Declaration)
    (header : Line) (content sections blanks : List Line) (fields : List Field) (field : Field) :
    Prop where
  takes : Takes { header } (content ++ sections) ⟨header, content ++ blanks, fields, [], none⟩
  areBlank : ∀ line ∈ blanks, line.shape = .blank
  echoes : List.Forall₂ (Field.Echo settings)
    (Section.arranged settings.groupFields settings.sortFields declaration.fields) fields
  last : fields.getLast? = some field
  before : ∀ line ∈ content, line.number ≤ field.lastLine

section Reaching

variable {sections trailing : List Line} (top : header.depth = 0)
  (closed : declaration.Closed (Line.Stable settings))
  (echo : declaration.ContentEcho settings content)
  (trailingText : trailing.map Line.text = settings.trailing declaration.trailing)
include top closed echo trailingText

/-- The interior of a declaration without fields, written and read. -/
theorem reaches_without_fields (noFields : declaration.fields = [])
    (run : settings.Reads (.outside 1) (trailing ++ rest) final) :
    settings.Reads (.outside 1) rest final ∧
      Reaches settings declaration header (content ++ trailing) := by
  obtain ⟨kept, waiting, whole, takesContent, waits⟩ := echo.takes top closed.content
  by_cases noTrailing : declaration.trailing = []
  · obtain rfl := trailing_eq_nil noTrailing trailingText
    refine ⟨run, _, ?_, rfl, rfl,
      rebuilds_of_dangling closed.run echo whole waits noFields noTrailing⟩
    rw [append_nil]
    exact takesContent
  · obtain ⟨blank, remarks, rfl, shape, run, stays, -, remarked⟩ :=
      reread_behind closed noTrailing run trailingText
    have areRemarks : ∀ line ∈ remarks, line.depth = 1 ∧ line.shape = .comment ∧
        isMarker line.text = false := by
      intro line member
      obtain ⟨isContent, source, known, echo⟩ := remarked line member
      have remark := closed.withoutFields noFields source known
      have depth := echo.depth.trans remark.read.read.depth
      have comment : line.shape = .comment := by
        rw [echo.shape, remark.shape]
        rfl
      exact ⟨depth, comment, (isContent depth).2.2 comment⟩
    have gap : Takes ⟨header, kept, [], waiting, none⟩ [blank]
        ⟨header, kept ++ waiting ++ [blank], [], [], none⟩ :=
      .single (add_blank top shape)
    rw [← whole] at gap
    have takes :=
      takesContent.append (gap.append (takes_comments top [] areRemarks))
    have cut : cutTail ⟨header, content ++ [blank], [], [] ++ remarks, none⟩ =
        (content ++ [blank], []) := cutTail_of_no_fields rfl
    refine ⟨run, _, takes, rfl, rfl, ?_⟩
    refine rebuilds_of_cut echo (forall_mem_singleton.mpr shape) (by rw [cut]) ?_ ?_
    · rw [noFields]
      exact .nil
    · rw [cut]
      exact stays

omit trailingText in
/-- The content and the fields of a declaration, written and read: the blank lines before the
fields stand behind the content, and the last field ends behind it. -/
theorem takes_fields (someFields : declaration.fields ≠ [])
    (ascending : Ascending (content ++ (sections ++ trailing)))
    (run : settings.Reads (.outside 1) (sections ++ (trailing ++ rest)) final)
    (sectionsText : sections.map Line.text =
      ((Section.arrange settings.groupFields settings.sortFields
      declaration.fields).flatMap settings.chunks).flatMap fun chunk => [] :: chunk) :
    settings.Reads (.outside 1) (trailing ++ rest) final ∧
      ∃ blanks fields field, FieldsEcho settings declaration header content sections blanks fields
        field ∧ ∀ line ∈ trailing, field.lastLine < line.number := by
  obtain ⟨kept, waiting, whole, takesContent, waits⟩ := echo.takes top closed.content
  obtain ⟨run, blanks, fields, takesSections, areBlank, echoes, numbers⟩ :=
    reread_sections top someFields closed.complete run sectionsText
  have takes := takesContent.append (takesSections kept waiting)
  rw [← whole] at takes
  obtain ⟨field, last⟩ : ∃ field, fields.getLast? = some field := by
    have length := echoes.length_eq
    rw [Section.arranged, (Section.perm_arrange _ _ _).length_eq] at length
    have some_ : fields ≠ [] := by
      rintro rfl
      exact someFields (length_eq_zero_iff.mp length)
    exact ⟨_, getLast?_eq_some_getLast some_⟩
  obtain ⟨closing, inSections, number⟩ := numbers field (mem_of_getLast? last)
  have ordered := pairwise_append.mp ascending
  refine ⟨run, blanks, fields, field, ⟨takes, areBlank, echoes, last, ?_⟩, ?_⟩
  · intro line member
    rw [number]
    exact Nat.le_of_lt (ordered.2.2 line member closing (mem_append_left _ inSections))
  · intro line member
    rw [number]
    exact (pairwise_append.mp ordered.2.1).2.2 closing inSections line member

section Fields

variable {blanks : List Line} {fields : List Field} {field : Field}
  (fieldsEcho : FieldsEcho settings declaration header content sections blanks fields field)
include fieldsEcho

omit top closed trailingText in
/-- Without comments behind the fields. -/
theorem reaches_fields (noTrailing : declaration.trailing = []) :
    Reaches settings declaration header (content ++ sections) := by
  obtain ⟨left, leftBlank, cut⟩ :
      ∃ left, (∀ line ∈ left, line.shape = .blank) ∧
        cutTail ⟨header, content ++ blanks, fields, [], none⟩ = (content ++ left, []) :=
    cutTail_eq fieldsEcho.last (by simp) fieldsEcho.before fieldsEcho.areBlank (forall_mem_nil _)
      (by simp)
  refine ⟨_, fieldsEcho.takes, rfl, rfl, ?_⟩
  refine rebuilds_of_cut echo leftBlank (by rw [cut]) fieldsEcho.echoes ?_
  rw [cut, noTrailing]
  rfl

/-- With comments behind the fields, which are cut off again. -/
theorem reaches_trailing (someTrailing : declaration.trailing ≠ [])
    (behind : ∀ line ∈ trailing, field.lastLine < line.number)
    (run : settings.Reads (.outside 1) (trailing ++ rest) final) :
    settings.Reads (.outside 1) rest final ∧
      Reaches settings declaration header (content ++ (sections ++ trailing)) := by
  obtain ⟨blank, remarks, rfl, shape, run, stays, startsWith, remarked⟩ :=
    reread_behind closed someTrailing run trailingText
  have gap : Takes ⟨header, content ++ blanks, fields, [], none⟩ [blank]
      ⟨header, content ++ (blanks ++ [blank]), fields, [], none⟩ := by
    apply Takes.single
    rw [add_blank top shape, append_nil, append_assoc]
  obtain ⟨tail, hanging, tailWhole, takesTail, -⟩ :
      ∃ tail hanging, [] ++ remarks = tail ++ hanging ∧
        Takes ⟨header, content ++ (blanks ++ [blank]), fields, [], none⟩ remarks
          ⟨header, content ++ (blanks ++ [blank]) ++ tail, fields, hanging, none⟩ ∧
        ∀ line ∈ hanging, line.depth = 1 ∧ line.shape = .comment :=
    takes_content top _ [] (fun line member => (remarked line member).1) (forall_mem_nil _)
  rw [nil_append] at tailWhole
  rw [append_assoc] at takesTail
  have tailLines : ∀ line ∈ tail, field.lastLine < line.number ∧ line.depth = 1 ∧
      (line.shape = .comment ∨ line.shape = .blank) := by
    intro line member
    have inRemarks : line ∈ remarks := by
      rw [tailWhole]
      exact mem_append_left _ member
    obtain ⟨-, source, known, echo⟩ := remarked line inRemarks
    exact ⟨behind line (mem_cons_of_mem _ inRemarks), closed.remark_of_echo known echo⟩
  have startsTail : ∀ line ∈ tail.head?, line.shape = .comment := by
    intro line member
    apply startsWith line
    rw [tailWhole, head?_append, member]
    rfl
  have blanksBehind : ∀ line ∈ blanks ++ [blank], line.shape = .blank :=
    forall_mem_append.mpr ⟨fieldsEcho.areBlank, forall_mem_singleton.mpr shape⟩
  obtain ⟨left, leftBlank, cut⟩ :
      ∃ left, (∀ line ∈ left, line.shape = .blank) ∧ cutTail
        ⟨header, content ++ (blanks ++ [blank] ++ tail), fields, hanging, none⟩ =
          (content ++ left, tail) := by
    refine cutTail_eq fieldsEcho.last rfl fieldsEcho.before blanksBehind ?_ startsTail
    intro line member
    simpa [isTailLine, childDepth, top, and_assoc] using tailLines line member
  have whole := fieldsEcho.takes.append (gap.append takesTail)
  rw [append_assoc] at whole
  refine ⟨run, _, whole, rfl, rfl, ?_⟩
  refine rebuilds_of_cut echo leftBlank (by rw [cut]) fieldsEcho.echoes ?_
  rw [cut]
  dsimp only
  rw [← tailWhole, stays]

end Fields

end Reaching

/-- The interior of a declaration, written and read. -/
theorem reread_interior (top : header.depth = 0)
    (closed : declaration.Closed (Line.Stable settings)) (ascending : Ascending first)
    (run : settings.Reads (.outside 1) (first ++ rest) final)
    (written : first.map Line.text = settings.interior declaration) :
    settings.Reads (.outside 1) rest final ∧
      Reaches settings declaration header first := by
  obtain ⟨content, later, rfl, contentText, written⟩ := map_eq_append_iff.mp written
  obtain ⟨sections, trailing, rfl, sectionsText, trailingText⟩ := map_eq_append_iff.mp written
  rw [append_assoc] at run
  obtain ⟨middle, runContent, run⟩ := run.split
  obtain ⟨rfl, reread⟩ :=
    closed.run.reread false rfl (contentText ▸ thinned_collapseBlankLines _) runContent
  have echo : declaration.ContentEcho settings content := ⟨runContent, reread, contentText⟩
  rw [append_assoc] at run
  by_cases noFields : declaration.fields = []
  · have noSections : sections = [] := by
      rw [noFields] at sectionsText
      exact map_eq_nil_iff.mp sectionsText
    subst noSections
    exact reaches_without_fields top closed echo trailingText noFields run
  · obtain ⟨run, blanks, fields, field, fieldsEcho, behind⟩ :=
      takes_fields top closed echo noFields ascending run sectionsText
    by_cases noTrailing : declaration.trailing = []
    · obtain rfl := trailing_eq_nil noTrailing trailingText
      rw [append_nil]
      exact ⟨run, reaches_fields echo fieldsEcho noTrailing⟩
    · exact reaches_trailing top closed echo trailingText fieldsEcho noTrailing behind run

end Interiors

section Whole

variable {settings : FormatSettings} {declaration : Declaration}
    {first rest : List Line} {final : Level}

/-- Lines are read as one declaration that echoes the given one, and the rest outside of it. -/
def Declaration.ReadsBack (settings : FormatSettings) (declaration : Declaration)
    (first rest : List Line) (final : Level) : Prop :=
  Run (Line.ReadAt settings.segmentProperties) (.outside 0) rest final ∧
    ∃ again, (∀ outline : Outline, outline.declaration = none →
        first.foldl Outline.add outline = { items := outline.settled ++ [.declaration again] }) ∧
      declaration.Echo settings again

theorem reread_inline_declaration (inline : declaration.Inline (Line.Stable settings))
    (run : settings.Reads (.outside 0) (first ++ rest) final)
    (written : first.map Line.text = settings.declaration declaration) :
    declaration.ReadsBack settings first rest final := by
  obtain ⟨key, name, value, shape⟩ := inline.shape
  have whole : settings.declaration declaration = [settings.line declaration.header] := by
    rw [FormatSettings.declaration, shape]
  rw [whole] at written
  obtain ⟨header, rfl, text⟩ := map_eq_singleton_iff.mp written
  have entry : settings.entry false (.single declaration.header) = [header.text] := by
    simp only [FormatSettings.entry, shape, text]
  cases run with
  | cons read run =>
    obtain ⟨echo, stays⟩ := reread_single false inline.header read entry
    have shape' : header.shape = declaration.header.shape.tidied := echo.shape
    rw [shape] at shape'
    rw [shape'] at run
    have top : header.depth = 0 := read.depth
    refine ⟨run, { header, footer := some header }, ?_, echo, ?_, ?_, ?_⟩
    · intro outline none_
      rw [foldl_cons, foldl_nil, Outline.add, none_]
      dsimp only
      rw [if_pos top, shape']
      rfl
    · rw [inline.eq]
      exact .nil
    · rw [inline.eq]
      exact .nil
    · intro _
      have again : settings.line header = header.text := by
        simpa only [FormatSettings.entry, shape', Shape.tidied,
          List.cons.injEq, and_true] using stays
      rw [whole, FormatSettings.declaration, shape', ← text]
      exact congrArg (fun text => [text]) again

theorem reread_closed_declaration (closed : declaration.Closed (Line.Stable settings))
    (ascending : Ascending first)
    (run : settings.Reads (.outside 0) (first ++ rest) final)
    (written : first.map Line.text = settings.declaration declaration) :
    declaration.ReadsBack settings first rest final := by
  obtain ⟨key, name, opens⟩ := closed.opens
  obtain ⟨footer, hasFooter, footerStable, close⟩ := closed.footer
  rw [settings.declaration_eq_interior opens hasFooter] at written
  obtain ⟨header', later, rfl, headerText, written⟩ := map_eq_cons_iff.mp written
  obtain ⟨interior, last, rfl, interiorText, written⟩ := map_eq_append_iff.mp written
  obtain ⟨footer', rfl, footerText⟩ := map_eq_singleton_iff.mp written
  have headerEntry : settings.entry false (.single declaration.header) = [header'.text] := by
    simp only [FormatSettings.entry, opens, headerText]
  have footerEntry : settings.entry false (.single footer) = [footer'.text] := by
    simp only [FormatSettings.entry, close, footerText]
  rw [cons_append, append_assoc] at run
  have ordered := (pairwise_append.mp (pairwise_cons.mp ascending).2).1
  cases run with
  | cons readHeader run =>
    obtain ⟨echoHeader, staysHeader⟩ := reread_single false closed.readHeader readHeader headerEntry
    have opens' : header'.shape = .blockOpen key name := by
      rw [echoHeader.shape, opens]
      rfl
    have top : header'.depth = 0 := readHeader.depth
    rw [opens'] at run
    obtain ⟨run, result, takes, sameHeader, noField, rebuilds⟩ :=
      reread_interior top closed ordered run interiorText
    cases run with
    | cons readFooter run =>
      obtain ⟨echoFooter, staysFooter⟩ := reread_single false footerStable readFooter footerEntry
      have close' : footer'.shape = .blockClose := by
        rw [echoFooter.shape, close]
        rfl
      rw [close'] at run
      refine ⟨run, result.close footer', ?_, ?_, rebuilds.content, rebuilds.fields, ?_⟩
      · intro outline none_
        have opened : outline.add header' =
            { items := outline.settled, declaration := some { header := header' } } := by
          rw [Outline.add, none_]
          dsimp only
          rw [if_pos top, opens']
        have ended : result.add footer' = .inr (result.close footer') := by
          have child : result.childDepth = 1 := by
            rw [childDepth, sameHeader, top]
          simp [add, noField, child, close', readFooter.depth]
        rw [foldl_cons, opened, foldl_append, takes _ rfl, foldl_cons, foldl_nil, Outline.add]
        dsimp only
        rw [ended]
      · rw [OpenDeclaration.close, sameHeader]
        exact echoHeader
      · intro stays
        have sameLine : settings.line header' = header'.text := by
          simpa only [FormatSettings.entry, opens', List.cons.injEq, and_true] using staysHeader
        have sameFooter : settings.line footer' = footer'.text := by
          simpa only [FormatSettings.entry, close', List.cons.injEq, and_true] using staysFooter
        have opensAgain : (result.close footer').header.shape = .blockOpen key name := by
          rw [OpenDeclaration.close, sameHeader, opens']
        rw [settings.declaration_eq_interior opensAgain rfl,
          settings.declaration_eq_interior opens hasFooter,
          rebuilds.interior stays, sameFooter, footerText]
        simp only [OpenDeclaration.close, sameHeader, sameLine, headerText]

end Whole

end LookML
