import LookML.Proofs.Retelling

/-!
# Reading what was written

The lines that a run of lines was laid out as are read as the same lines again, each with
the values it had up to spacing and spelling, and laying them out once more changes
nothing.  This holds as well when empty lines among them have been left out.
-/

namespace LookML

open Text Code List Layout Sql.Style

variable {text : Text}

/-- Lines of which some that are empty have been left out. -/
inductive Layout.Thinned : List Text → List Text → Prop
  | nil : Thinned [] []
  | keep (line : Text) {lines rest : List Text} (thinned : Thinned lines rest) :
      Thinned (line :: lines) (line :: rest)
  | drop {lines rest : List Text} (thinned : Thinned lines rest) : Thinned ([] :: lines) rest

namespace Layout.Thinned

variable {lines rest first second : List Text}

theorem refl (lines : List Text) : Thinned lines lines := by
  induction lines with
  | nil => exact .nil
  | cons line lines ih => exact .keep line ih

theorem split (thinned : Thinned (first ++ second) rest) :
    ∃ front back, rest = front ++ back ∧ Thinned first front ∧ Thinned second back := by
  induction first generalizing rest with
  | nil => exact ⟨[], rest, rfl, .nil, thinned⟩
  | cons line first ih =>
    cases thinned with
    | keep _ thinned =>
      obtain ⟨front, back, rfl, left, right⟩ := ih thinned
      exact ⟨line :: front, back, rfl, .keep line left, right⟩
    | drop thinned =>
      obtain ⟨front, back, rfl, left, right⟩ := ih thinned
      exact ⟨front, back, rfl, .drop left, right⟩

theorem mem_of_mem {line : Text} (thinned : Thinned lines rest) (member : line ∈ rest) :
    line ∈ lines := by
  induction thinned with
  | nil => exact member
  | keep other _ ih => exact mem_cons.mpr ((mem_cons.mp member).imp_right ih)
  | drop _ ih => exact mem_cons_of_mem _ (ih member)

theorem cons {line : Text} (occupied : line ≠ []) (thinned : Thinned (line :: lines) rest) :
    ∃ later, rest = line :: later ∧ Thinned lines later := by
  cases thinned with
  | keep _ thinned => exact ⟨_, rfl, thinned⟩
  | drop => exact absurd rfl occupied

end Layout.Thinned

namespace Layout

private theorem thinned_collapseFrom (lines : List Text) :
    (∀ started, Thinned lines (collapseFrom started false lines)) ∧
      Thinned lines (collapseFrom false true lines) ∧
      Thinned ([] :: lines) (collapseFrom true true lines) := by
  induction lines with
  | nil => exact ⟨fun _ => .nil, .nil, .drop .nil⟩
  | cons line lines ih =>
    obtain ⟨flush, leading, waiting⟩ := ih
    by_cases empty : line = []
    · subst empty
      refine ⟨fun started => ?_, .drop leading, .drop waiting⟩
      cases started with
      | false => exact .drop leading
      | true => exact waiting
    · refine ⟨fun started => ?_, ?_, ?_⟩
      · simpa [collapseFrom, empty] using .keep line (flush true)
      · simpa [collapseFrom, empty] using .keep line (flush true)
      · simpa [collapseFrom, empty] using .keep [] (.keep line (flush true))

theorem thinned_collapseBlankLines (lines : List Text) : Thinned lines (collapseBlankLines lines) :=
  (thinned_collapseFrom lines).1 false

end Layout

namespace Sql.Style

variable {style : Style} {depth : Nat} {pending : Option Text}

/-- The lines of a body that has been laid out, with or without its empty lines. -/
theorem reread_bodyLines (blank : allBlank style.unit = true)
    (known : ∀ closer ∈ pending, IsCloser closer) {sources texts : List Text}
    (open_ : ∀ source ∈ sources, endsSegment (trim source) = false)
    (thinned : Thinned (style.bodyLines depth pending sources) texts) :
    style.bodyLines depth pending texts = texts ∧
      (∀ text ∈ texts, endsSegment (trim text) = false) ∧
      style.Retold pending (said sources) (said texts) := by
  induction sources generalizing pending texts with
  | nil =>
    cases thinned
    exact ⟨rfl, by simp, .nil⟩
  | cons source sources ih =>
    obtain ⟨here, behind⟩ := forall_mem_cons.mp open_
    have retold {rest : List Text} (later : style.Retold
        (style.bodyLine depth pending source).2 (said sources) (said rest)) :=
      retold_bodyLine blank known later
    have later {rest : List Text}
        (thinned : Thinned
          (style.bodyLines depth (style.bodyLine depth pending source).2 sources) rest) :=
      ih (isCloser_bodyLine known depth source) behind thinned
    have again := bodyLine_bodyLine blank depth pending source
    have ends := endsSegment_bodyLine blank depth pending here
    rw [bodyLines] at thinned
    generalize style.bodyLine depth pending source = line at thinned again ends retold later
    obtain ⟨written, still⟩ := line
    cases thinned with
    | keep _ thinned =>
      obtain ⟨stable, opens, kept⟩ := later thinned
      refine ⟨?_, ?_, ?_⟩
      · rw [bodyLines, again]
        dsimp only
        rw [stable]
      · exact forall_mem_cons.mpr ⟨ends, opens⟩
      · exact retold kept
    | drop thinned =>
      -- An empty line leaves open what was open before it.
      rw [bodyLine_nil known] at again
      obtain ⟨-, rfl⟩ := Prod.mk.inj again
      obtain ⟨stable, opens, kept⟩ := later thinned
      exact ⟨stable, opens, retold kept⟩

theorem closingText?_indent (blank : allBlank style.unit = true) (depth : Nat) :
    closingText? (style.indent depth ++ terminator) = none := by
  have cut : cutLast? terminator (style.indent depth ++ terminator) =
      some (style.indent depth, []) := by
    refine cutLast?_eq_some_iff.mpr ⟨by simp, fun lead tail same => ?_⟩
    have length := congrArg List.length same
    simp only [length_append] at length
    omega
  rw [closingText?, cut]
  simp [allBlank_indent blank depth]

/-- The value of a segment on one line, with its terminator. -/
def closedValue (text : Text) : Text :=
  if text.isEmpty then terminator else text ++ ' ' :: terminator

theorem trimmed_closedValue (trimmed : Trimmed text) : Trimmed (closedValue text) := by
  cases text with
  | nil => exact ⟨by decide, by decide⟩
  | cons c text =>
    refine ⟨trimmed.head, ?_⟩
    rw [closedValue, isEmpty_cons, if_neg Bool.false_ne_true, append_cons]
    exact last_terminator _

theorem endsSegment_closedValue (text : Text) : endsSegment (closedValue text) = true := by
  rw [closedValue]
  split
  · decide
  · rw [append_cons]
    exact isSuffixOf_iff_suffix.mpr (suffix_append _ _)

theorem stripTerminator_closedValue (trimmed : Trimmed text) :
    stripTerminator (closedValue text) = text := by
  by_cases empty : text = []
  · subst empty
    decide
  · have spaced : stripTerminator (text ++ ([' '] ++ terminator)) = text :=
      stripTerminator_of_ended trimmed empty rfl
    simpa [closedValue, empty] using spaced

theorem unbroken_closedValue (unbroken : Unbroken text) : Unbroken (closedValue text) := by
  rw [closedValue]
  split
  · decide
  · exact unbroken_append.mpr ⟨unbroken, by decide⟩

theorem headLine_eq (style : Style) (segment : Segment) (text : Text) :
    ∃ space, allBlank space = true ∧ ['/', '/'].isPrefixOf (space ++ text) = false ∧
      (text = [] → space = []) ∧ style.headLine segment text =
        style.indent segment.depth ++ ((segment.property ++ [':']) ++ (space ++ text)) := by
  unfold headLine
  dsimp only
  split
  next empty =>
    rw [List.isEmpty_iff.mp empty]
    exact ⟨[], rfl, rfl, fun _ => rfl, by simp⟩
  next occupied =>
    refine ⟨[' '], rfl, rfl, ?_, by simp⟩
    intro empty
    exact absurd (List.isEmpty_iff.mpr empty) occupied

theorem headLine_closed (style : Style) (segment : Segment) (text : Text) :
    style.headLine segment text ++ ' ' :: terminator =
      style.indent segment.depth ++
        ((segment.property ++ [':']) ++ ([' '] ++ closedValue text)) := by
  unfold headLine closedValue
  dsimp only
  split <;> simp

end Sql.Style

namespace Shape

variable {properties : List Text} {key value space again : Text}

/-- A property that opens segments is read as one. -/
theorem reading_of_property (known : key ∈ properties)
    (found : property? (trim again) = some (key, value)) :
    Reading properties again (ofSegment key value) := by
  obtain ⟨lead, space, keyed, -, same, -⟩ := property?_iff.mp found
  obtain ⟨c, head, noMark, noBrace, -⟩ := keyed.head (space ++ value)
  rw [← same] at head
  have stays : isBlockClose (splitComment (trim again)).1 = false :=
    isBlockClose_of_head head noBrace
  unfold ofSegment
  split
  next ended => exact .segmentInline ⟨c, head, noMark⟩ stays found known ended
  next open_ => exact .segmentOpen ⟨c, head, noMark⟩ stays found known (Bool.eq_false_iff.mpr open_)

/-- A segment property is read by its key and its value. -/
theorem reading_segment (identifier : IsIdentifier key) (known : key ∈ properties)
    (blank : allBlank space = true) (apart : ['/', '/'].isPrefixOf (space ++ value) = false)
    (trimmed : Trimmed value) (unbroken : '\n' ∉ value)
    (same : trim again = (key ++ [':']) ++ (space ++ value)) :
    Reading properties again (ofSegment key value) :=
  reading_of_property known (property?_iff.mpr
    ⟨_, space, .of_blank identifier allBlank_nil, blank, same, trimmed.head, apart, unbroken⟩)

end Shape

/-- A line and the line it is read as once it has been laid out. -/
structure Line.Echo (line again : Line) : Prop where
  depth : again.depth = line.depth
  shape : again.shape = line.shape.tidied
  text : line.shape = .comment → trim again.text = trim line.text
  value : ∀ key value, line.shape = .property key value → Trimmed value

/-- An entry and the entry it is read as once it has been laid out. -/
inductive Entry.Echo (settings : FormatSettings) : Entry → Entry → Prop
  | single {line again : Line} (echo : line.Echo again) :
      Echo settings (.single line) (.single again)
  | grouped {segment again : Segment} (known : segment.property ∈ settings.segmentProperties)
      (property : again.property = segment.property)
      (depth : again.depth = segment.depth)
      (value : (settings.style segment.property).Retells segment.text again.text) :
      Echo settings (.grouped segment) (.grouped again)

/-- Entries and what they are read as, where blank lines may have been left out. -/
inductive Echoes (settings : FormatSettings) : List Entry → List Entry → Prop
  | nil : Echoes settings [] []
  | dropped {line : Line} {entries rest : List Entry} (blank : line.shape = .blank)
      (later : Echoes settings entries rest) : Echoes settings (.single line :: entries) rest
  | cons {entry again : Entry} {entries rest : List Entry} (echo : entry.Echo settings again)
      (later : Echoes settings entries rest) : Echoes settings (entry :: entries) (again :: rest)

/-- A closing line with a second terminator before its last one. -/
def Line.ClosesTwice (line : Line) : Prop :=
  ∃ before ∈ closingText? line.text, endsSegment (trim before) = true

instance (line : Line) : Decidable line.ClosesTwice :=
  inferInstanceAs (Decidable (∃ before ∈ closingText? line.text, _))

/-- A line that is read as what it is once it has been laid out. -/
structure Line.Stable (settings : FormatSettings) (level : Level) (line : Line) : Prop where
  read : line.ReadAt settings.segmentProperties level
  unbroken : Unbroken line.text
  stays : ¬ line.shape.Reopens
  once : line.shape = .segmentClose → ¬ line.ClosesTwice

/-- A run of lines read with the segment properties of the settings. -/
abbrev FormatSettings.Reads (settings : FormatSettings) : Level → List Line → Level → Prop :=
  Run (Line.ReadAt settings.segmentProperties)

section Rereading

variable {property value : Text} {body : List Line} {final : Level} {closing : Line}
  {entries : List Entry}

variable {settings : FormatSettings} {depth : Nat} {line again : Line}

theorem Level.next_tidied (level : Level) (shape : Shape) :
    level.next shape.tidied = level.next shape := by
  cases shape <;> rfl

theorem trimRight_trimRight (text : Text) : trimRight (trimRight text) = trimRight text :=
  trimRight_of_last (last_trimRight text)

theorem reread_single (verbatim : Bool) (stable : line.Stable settings (.outside depth))
    (read : again.ReadAt settings.segmentProperties (.outside depth))
    (written : settings.entry verbatim (.single line) = [again.text]) :
    line.Echo again ∧ settings.entry verbatim (.single again) = [again.text] := by
  have respaces := stable.read.reading.respaces stable.unbroken.not_mem stable.stays
  have indented (text : Text) (same : settings.line line = text) :
      trim text = line.shape.space line.text := by
    rw [← same, settings.line_eq, trim_append_of_allBlank (settings.allBlank_indent _),
      respaces.trimmed.trim_eq]
  have trimmed : trim again.text = line.shape.space line.text := by
    unfold FormatSettings.entry at written
    dsimp only at written
    split at written
    next blank =>
      obtain ⟨same, -⟩ := cons.inj written
      have empty := stable.read.reading
      rw [blank] at empty
      cases empty with
      | blank none_ => rw [← same, blank, Shape.space, none_]; rfl
    next content =>
      obtain ⟨same, -⟩ := cons.inj written
      rw [← same, content, trim_trimRight]
      rfl
    next comment =>
      split at written
      · obtain ⟨same, -⟩ := cons.inj written
        rw [← same, comment, trim_trimRight]
        rfl
      · obtain ⟨same, -⟩ := cons.inj written
        exact indented _ same
    next =>
      obtain ⟨same, -⟩ := cons.inj written
      exact indented _ same
  have shape : again.shape = line.shape.tidied := by
    rw [read.shape_of_outside rfl]
    exact (respaces.reading again.text trimmed).read_eq
  have depth : again.depth = line.depth := read.depth.trans stable.read.depth.symm
  refine ⟨⟨depth, shape, ?_, ?_⟩, ?_⟩
  · intro comment
    rw [trimmed, comment]
    rfl
  · intro key value property
    have reading := stable.read.reading
    rw [property] at reading
    cases reading with
    | property _ _ found => exact trimmed_of_property found
  · have sameLine : settings.line again = settings.line line := by
      have stays := respaces.stable again.text trimmed
      have indentDepth : again.indentDepth = line.indentDepth := by
        rw [Line.indentDepth, Line.indentDepth, shape, depth]
        cases line.shape <;> rfl
      rw [settings.line_eq, settings.line_eq, indentDepth, shape, stays]
    have sameTail (same : trimRight line.text = again.text) :
        trimRight again.text = trimRight line.text := by
      rw [← same, trimRight_trimRight]
    rw [← written]
    unfold FormatSettings.entry at written ⊢
    dsimp only at written ⊢
    rw [shape]
    cases lineShape : line.shape with
    | blank => rfl
    | content =>
      rw [lineShape] at written
      exact congrArg (fun text => [text]) (sameTail (cons.inj written).1)
    | comment =>
      rw [lineShape] at written
      dsimp only [Shape.tidied] at written ⊢
      rw [sameLine]
      split
      next verbatim_ =>
        rw [if_pos verbatim_] at written
        rw [sameTail (cons.inj written).1]
      next => rfl
    | _ => exact congrArg (fun text => [text]) sameLine

theorem Line.ReadAt.shape_of_text
    (read : line.ReadAt settings.segmentProperties ⟨depth, some property⟩) :
    line.shape = if endsSegment (trim line.text) then .segmentClose else .segmentContent :=
  read.shape

/-- Lines without a terminator go on with a segment. -/
theorem run_body {rest : List Line}
    (run : settings.Reads ⟨depth, some property⟩ (body ++ rest) final)
    (open_ : ∀ content ∈ body, endsSegment (trim content.text) = false) :
    (∀ content ∈ body, content.ReadAt settings.segmentProperties ⟨depth, some property⟩ ∧
      content.shape = .segmentContent) ∧
    settings.Reads ⟨depth, some property⟩ rest final := by
  induction body with
  | nil => exact ⟨by simp, run⟩
  | cons content body ih =>
    obtain ⟨here, others⟩ := forall_mem_cons.mp open_
    cases run with
    | cons read later =>
      have shape := read.shape_of_text
      rw [here] at shape
      change content.shape = .segmentContent at shape
      rw [shape] at later
      obtain ⟨inside, behind⟩ := ih later others
      exact ⟨forall_mem_cons.mpr ⟨⟨read, shape⟩, inside⟩, behind⟩

theorem identifier_of_property {key : Text} (found : property? text = some (key, value)) :
    IsIdentifier key := by
  obtain ⟨lead, -, keyed, -⟩ := property?_iff.mp found
  exact keyed.identifier

theorem stripTerminator_of_open (trimmed : Trimmed value)
    (open_ : endsSegment value = false) : stripTerminator value = value := by
  have absent : before? terminator value = none := by
    rw [before?, show terminator.isSuffixOf value = false from open_]
    rfl
  rw [stripTerminator, trimmed.trim_eq, absent, Option.getD_none, trimmed.trim_eq]

theorem trimmed_stripTerminator (text : Text) : Trimmed (stripTerminator text) :=
  trimmed_trim _

theorem reread_inline (stable : line.Stable settings (.outside depth))
    (shape : line.shape = .segmentInline property value)
    (read : again.ReadAt settings.segmentProperties (.outside depth))
    (written : (settings.style property).segmentLines ⟨property, value, true, line, [], none⟩ =
      [again.text]) :
    ∃ value', again.shape = .segmentInline property value' ∧
      Entry.Echo settings (.grouped ⟨property, value, true, line, [], none⟩)
        (.grouped ⟨property, value', true, again, [], none⟩) ∧
      (settings.style property).segmentLines ⟨property, value', true, again, [], none⟩ =
        [again.text] := by
  obtain ⟨found, known⟩ := stable.read.property_of_segment (.inr shape)
  have identifier := identifier_of_property found
  have depth : again.depth = line.depth := read.depth.trans stable.read.depth.symm
  have trimmed : Trimmed ((settings.style property).restyle none (stripTerminator value)).1 :=
    trimmed_restyle (trimmed_stripTerminator value).last
  have plain : Unbroken (stripTerminator value) :=
    (unbroken_of_property found stable.unbroken).2.of_subset
      fun c inside => .inr (mem_of_mem_stripTerminator inside)
  have unbroken : Unbroken ((settings.style property).restyle none (stripTerminator value)).1 :=
    unbroken_restyle plain none
  have retold : (settings.style property).Retold none (said [stripTerminator value]) (said [_]) :=
    retold_restyle .nil
  have stays : (settings.style property).restyle none
      ((settings.style property).restyle none (stripTerminator value)).1 = _ :=
    restyle_restyle (stripTerminator value)
  rw [segmentLines_inline] at written
  generalize (settings.style property).restyle none (stripTerminator value) = restyled at *
  obtain ⟨same, -⟩ := cons.inj written
  have line_eq := same.symm.trans (headLine_closed _ _ _)
  have trim_eq : trim again.text = (property ++ [':']) ++ ([' '] ++ closedValue restyled.1) := by
    rw [line_eq, trim_append_of_allBlank (allBlank_indent (settings.allBlank_unit property) _)]
    refine (trimmed_keyed identifier (trimmed_closedValue trimmed) ?_).trim_eq
    intro empty
    have ends := endsSegment_closedValue restyled.1
    rw [empty] at ends
    cases ends
  refine ⟨closedValue restyled.1, ?_, .grouped known rfl depth ?_, ?_⟩
  · have reading := Shape.reading_segment identifier known (show allBlank [' '] = true from rfl) rfl
      (trimmed_closedValue trimmed) (unbroken_closedValue unbroken).not_mem trim_eq
    rw [Shape.ofSegment, endsSegment_closedValue, if_pos rfl] at reading
    rw [read.shape_of_outside rfl, reading.read_eq]
  · rw [Retells, Segment.said_text, Segment.said_text]
    · simpa [Segment.parts, stripTerminator_closedValue trimmed] using retold
    · simpa [Segment.parts, stripTerminator_closedValue trimmed] using unbroken
    · simpa [Segment.parts] using plain
  · rw [segmentLines_inline, stripTerminator_closedValue trimmed, stays, ← same]
    simp [headLine, Segment.depth, depth]

theorem said_closingText? (ended : endsSegment (trim text) = true) :
    said (closingText? text).toList = said [stripTerminator text] := by
  obtain ⟨before, tail, cut, -, -, trim_eq⟩ := cutLast?_of_endsSegment ended
  have front : before? terminator (trim text) = some (trimLeft before) :=
    before?_eq_some_iff.mpr trim_eq
  rw [stripTerminator, front, Option.getD_some, trim_trimLeft,
    said_cons_congr (trim_trim before), closingText?, cut]
  dsimp only
  split
  next blank => exact (said_cons_of_blank blank []).symm
  next => rfl

/-- The lines that a segment with a body was written as: the head, what is left of the
body, and the terminator. -/
theorem exists_closed_lines {style : Sql.Style} {opening : Line}
    {first : List Line} (written : Thinned (style.segmentLines
      ⟨property, value, false, opening, body, some closing⟩) (first.map Line.text)) :
    ∃ opening' body' closing', first = opening' :: body' ++ [closing'] ∧
      opening'.text = style.headLine ⟨property, value, false, opening, body, some closing⟩
        (style.restyle none value).1 ∧
      Thinned (style.bodyLines opening.depth (style.restyle none value).2
        (body.map Line.text ++ (closingText? closing.text).toList)) (body'.map Line.text) ∧
      closing'.text = style.indent opening.depth ++ terminator := by
  rw [segmentLines_closed] at written
  obtain ⟨space, -, -, -, head_eq⟩ := style.headLine_eq
    ⟨property, value, false, opening, body, some closing⟩ (style.restyle none value).1
  obtain ⟨laterTexts, headText, behind⟩ := written.cons (by rw [head_eq]; simp)
  obtain ⟨bodyTexts, closingTexts, rfl, bodyThinned, closingThinned⟩ := behind.split
  obtain ⟨none_, rfl, noMore⟩ := closingThinned.cons (by simp [terminator])
  cases noMore
  obtain ⟨opening', later, rfl, openingText, laterLines⟩ := map_eq_cons_iff.mp headText
  obtain ⟨body', last', rfl, rfl, lastText⟩ := map_eq_append_iff.mp laterLines
  obtain ⟨closing', none_, rfl, closingText, noMore⟩ := map_eq_cons_iff.mp lastText
  cases map_eq_nil_iff.mp noMore
  exact ⟨opening', body', closing', rfl, openingText, bodyThinned, closingText⟩

section Opened

variable {opening : Line} (stable : opening.Stable settings (.outside depth))
  (shape : opening.shape = .segmentOpen property value)

include stable shape

theorem value_of_opened : Trimmed value ∧ endsSegment value = false := by
  have reading := stable.read.reading
  rw [shape] at reading
  cases reading with
  | segmentOpen _ _ found _ open_ => exact ⟨trimmed_of_property found, open_⟩

/-- The value on the first line of a segment stays a value that goes on. -/
theorem restyled_of_opened (style : Sql.Style) :
    Trimmed (style.restyle none value).1 ∧ endsSegment (style.restyle none value).1 = false := by
  obtain ⟨trimmedValue, openValue⟩ := value_of_opened stable shape
  have trimmed : Trimmed (style.restyle none value).1 := trimmed_restyle trimmedValue.last
  refine ⟨trimmed, ?_⟩
  rw [← trimmed.trim_eq]
  apply endsSegment_restyle
  rwa [trimmedValue.trim_eq]

theorem reread_opening (segment : Segment) (same : segment.property = property)
    (read : again.ReadAt settings.segmentProperties (.outside depth))
    (written : again.text = (settings.style property).headLine segment
      ((settings.style property).restyle none value).1) :
    again.shape = .segmentOpen property ((settings.style property).restyle none value).1 := by
  obtain ⟨found, known⟩ := stable.read.property_of_segment (.inl shape)
  have identifier := identifier_of_property found
  obtain ⟨trimmed, open_⟩ := restyled_of_opened stable shape (settings.style property)
  have unbroken : Unbroken ((settings.style property).restyle none value).1 :=
    unbroken_restyle (unbroken_of_property found stable.unbroken).2 none
  obtain ⟨space, blank, apart, empty, head_eq⟩ := headLine_eq (settings.style property)
    segment ((settings.style property).restyle none value).1
  have trim_eq : trim again.text =
      (property ++ [':']) ++ (space ++ ((settings.style property).restyle none value).1) := by
    rw [written, head_eq, same,
      trim_append_of_allBlank (allBlank_indent (settings.allBlank_unit property) _)]
    exact (trimmed_keyed identifier trimmed empty).trim_eq
  have reading :=
    Shape.reading_segment identifier known blank apart trimmed unbroken.not_mem trim_eq
  rw [Shape.ofSegment, open_] at reading
  rw [read.shape_of_outside rfl, reading.read_eq]
  rfl

variable
  (inside : ∀ content ∈ body, content.Stable settings ⟨depth, some property⟩ ∧
    content.shape = .segmentContent)
  (last : closing.Stable settings ⟨depth, some property⟩) (close : closing.shape = .segmentClose)
include inside last close

omit stable shape in
/-- The lines of a body, and the text before the terminator, end no segment. -/
theorem open_of_body : ∀ source ∈ body.map Line.text ++ (closingText? closing.text).toList,
    endsSegment (trim source) = false := by
  refine forall_mem_append.mpr ⟨forall_mem_map.mpr fun content isContent => ?_,
    fun source inClosing => Bool.eq_false_iff.mpr fun ended => ?_⟩
  · have same := (inside content isContent).1.read.shape_of_text
    rw [(inside content isContent).2] at same
    cases ended : endsSegment (trim content.text) with
    | false => rfl
    | true =>
      rw [ended] at same
      cases same
  · exact last.once close ⟨source, Option.mem_toList.mp inClosing, ended⟩

/-- The value of a segment with a body, given what its lines are laid out as. -/
theorem retells_closed {style : Sql.Style} {opening' closing' : Line} {body' : List Line}
    (unit : Unbroken style.unit)
    (thinned : Thinned (style.bodyLines opening.depth (style.restyle none value).2
      (body.map Line.text ++ (closingText? closing.text).toList)) (body'.map Line.text))
    (kept : style.Retold (style.restyle none value).2
      (said (body.map Line.text ++ (closingText? closing.text).toList))
      (said (body'.map Line.text)))
    (closed : stripTerminator closing'.text = []) :
    style.Retells (Segment.text ⟨property, value, false, opening, body, some closing⟩)
      (Segment.text ⟨property, (style.restyle none value).1, false, opening', body',
        some closing'⟩) := by
  obtain ⟨trimmedValue, openValue⟩ := value_of_opened stable shape
  obtain ⟨trimmed, openHead⟩ := restyled_of_opened stable shape style
  obtain ⟨found, -⟩ := stable.read.property_of_segment (.inl shape)
  have plain := (unbroken_of_property found stable.unbroken).2
  have bodyPlain : ∀ text ∈ body.map Line.text, Unbroken text :=
    forall_mem_map.mpr fun content member => (inside content member).1.unbroken
  have lastPlain : ∀ text ∈ (closingText? closing.text).toList, Unbroken text :=
    fun text new => unbroken_closingText? last.unbroken (Option.mem_toList.mp new)
  have written := unbroken_bodyLines unit opening.depth (style.restyle none value).2
    (forall_mem_append.mpr ⟨bodyPlain, lastPlain⟩)
  have retold := retold_restyle kept
  rw [← singleton_append, said_append, said_append (body.map _),
    said_closingText? (last.read.endsSegment_of_close close), ← said_append, ← said_append]
    at retold
  rw [Retells, Segment.said_text, Segment.said_text, Segment.parts, Segment.parts]
  · have ends (lines : List Text) : said (lines ++ [[]]) = said lines :=
      (said_append lines [[]]).trans (append_nil _)
    dsimp only [Option.toList_some, map_singleton]
    rw [stripTerminator_of_open trimmedValue openValue, stripTerminator_of_open trimmed openHead,
      closed]
    rwa [← ends (_ :: body'.map _)] at retold
  · rw [Segment.parts, stripTerminator_of_open trimmed openHead, forall_mem_cons, forall_mem_append]
    refine ⟨unbroken_restyle plain none, fun text member => ?_, ?_⟩
    · exact written text (thinned.mem_of_mem member)
    · simpa [closed] using unbroken_nil
  · rw [Segment.parts, stripTerminator_of_open trimmedValue openValue, forall_mem_cons,
      forall_mem_append]
    refine ⟨plain, bodyPlain, forall_mem_singleton.mpr (last.unbroken.of_subset ?_)⟩
    exact fun c inside => .inr (mem_of_mem_stripTerminator inside)

theorem reread_closed {first rest : List Line}
    (run : settings.Reads (.outside depth) (first ++ rest) final)
    (written : Thinned ((settings.style property).segmentLines
      ⟨property, value, false, opening, body, some closing⟩) (first.map Line.text)) :
    ∃ opening' body' closing' value', first = opening' :: body' ++ [closing'] ∧
      opening'.ReadAt settings.segmentProperties (.outside depth) ∧
        opening'.shape = .segmentOpen property value' ∧
      (∀ content ∈ body', content.ReadAt settings.segmentProperties ⟨depth, some property⟩ ∧
        content.shape = .segmentContent) ∧
      closing'.ReadAt settings.segmentProperties ⟨depth, some property⟩ ∧
        closing'.shape = .segmentClose ∧
      settings.Reads (.outside depth) rest final ∧
      Entry.Echo settings (.grouped ⟨property, value, false, opening, body, some closing⟩)
        (.grouped ⟨property, value', false, opening', body', some closing'⟩) ∧
      (settings.style property).segmentLines ⟨property, value', false,
        opening', body', some closing'⟩ =
        first.map Line.text := by
  have blank := settings.allBlank_unit property
  have known := (stable.read.property_of_segment (.inl shape)).2
  obtain ⟨opening', body', closing', rfl, openingText, bodyThinned, closingText⟩ :=
    exists_closed_lines written
  obtain ⟨stays, open_, kept⟩ := reread_bodyLines blank
    (isCloser_restyle Sql.isCloser_none value) (open_of_body inside last close) bodyThinned
  have run : settings.Reads (.outside depth) (opening' :: (body' ++ closing' :: rest)) final := by
    simpa using run
  cases run with
  | cons read later =>
    have depth_eq : opening'.depth = opening.depth := read.depth.trans stable.read.depth.symm
    have openingShape := reread_opening stable shape _ rfl read openingText
    rw [openingShape] at later
    obtain ⟨bodyRead, behind⟩ :=
      run_body later fun content member => open_ _ (mem_map_of_mem member)
    cases behind with
    | cons closingRead behind =>
      have ended : endsSegment (trim closing'.text) = true := by
        rw [closingText, trim_append_of_allBlank (allBlank_indent blank _)]
        decide
      have closingShape : closing'.shape = .segmentClose := by
        rw [closingRead.shape_of_text, ended]
        rfl
      rw [closingShape] at behind
      refine ⟨opening', body', closing', _, rfl, read, openingShape, bodyRead,
        closingRead, closingShape, behind, .grouped known rfl depth_eq ?_, ?_⟩
      · refine retells_closed stable shape inside last close (settings.unbroken_unit property)
          bodyThinned kept ?_
        rw [closingText, stripTerminator, trim_append_of_allBlank (allBlank_indent blank _)]
        decide
      · have again : (settings.style property).restyle none
            ((settings.style property).restyle none value).1 = _ :=
          restyle_restyle value
        rw [segmentLines_closed, closingText, closingText?_indent blank, again, depth_eq]
        simp [stays, openingText, closingText, headLine, Segment.depth, depth_eq]

end Opened

theorem exists_entry_single (settings : FormatSettings) (verbatim : Bool) (line : Line) :
    ∃ text, settings.entry verbatim (.single line) = [text] := by
  unfold FormatSettings.entry
  dsimp only
  split
  · exact ⟨_, rfl⟩
  · exact ⟨_, rfl⟩
  · split <;> exact ⟨_, rfl⟩
  · exact ⟨_, rfl⟩

theorem occupied_single (verbatim : Bool)
    (read : line.ReadAt settings.segmentProperties (.outside depth)) (solid : line.shape ≠ .blank) :
    ∃ text, settings.entry verbatim (.single line) = [text] ∧ text ≠ [] := by
  obtain ⟨text, written, same⟩ := settings.exists_single verbatim read.reading solid
  refine ⟨text, written, ?_⟩
  rintro rfl
  have empty := squash_eq_nil_iff.mp same.symm
  rw [read.reading.solid solid] at empty
  cases empty

/-- What is written for a line by itself: an empty line for a blank one, which may be left
out, and otherwise one line. -/
theorem thinned_single (verbatim : Bool)
    (read : line.ReadAt settings.segmentProperties (.outside depth))
    {texts : List Text} (thinned : Thinned (settings.entry verbatim (.single line)) texts) :
    (line.shape = .blank ∧ texts = []) ∨ settings.entry verbatim (.single line) = texts := by
  by_cases blank : line.shape = .blank
  · have written : settings.entry verbatim (.single line) = [[]] := by
      simp only [FormatSettings.entry, blank]
    rw [written] at thinned ⊢
    cases thinned with
    | keep _ rest =>
      cases rest
      exact .inr rfl
    | drop rest =>
      cases rest
      exact .inl ⟨blank, rfl⟩
  · obtain ⟨text, written, solid⟩ := occupied_single verbatim read blank
    rw [written] at thinned ⊢
    obtain ⟨later, rfl, rest⟩ := thinned.cons solid
    cases rest
    exact .inr rfl

/-- Lines that have been laid out, with or without their empty lines, are read as the same
entries and laid out the same way. -/
theorem Entries.reread (verbatim : Bool) {lines : List Line} {level : Level}
    (grouped : Entries (Line.Stable settings) depth lines entries final)
    (outside : final.segment = none)
    {lines' : List Line}
    (thinned : Thinned (entries.flatMap (settings.entry verbatim)) (lines'.map Line.text))
    (run : settings.Reads (.outside depth) lines' level) :
    level = final ∧
      ∃ entries', Entries (Line.ReadAt settings.segmentProperties) depth lines' entries' final ∧
      entries'.flatMap (settings.entry verbatim) = lines'.map Line.text ∧
      Echoes settings entries entries' := by
  induction grouped generalizing lines' with
  | nil depth =>
    generalize written : lines'.map Line.text = texts at thinned
    cases thinned
    cases map_eq_nil_iff.mp written
    cases run
    exact ⟨rfl, [], .nil depth, rfl, .nil⟩
  | @single depth line lines entries final stable notOpen notInline _ ih =>
    rw [flatMap_cons] at thinned
    obtain ⟨front, back, written, here, later⟩ := thinned.split
    obtain ⟨first, rest, rfl, rfl, rfl⟩ := map_eq_append_iff.mp written
    have next := Level.next_outside stable.read notOpen
    rcases thinned_single verbatim stable.read here with ⟨blank, none_⟩ | same
    · cases map_eq_nil_iff.mp none_
      rw [blank] at ih
      obtain ⟨reached, entries', isGrouped, stays, echoes⟩ := ih outside later run
      exact ⟨reached, entries', isGrouped, stays, .dropped blank echoes⟩
    · obtain ⟨text, single⟩ := exists_entry_single settings verbatim line
      rw [single] at same
      obtain ⟨again, rfl, rfl⟩ := map_eq_singleton_iff.mp same.symm
      cases run with
      | cons read behind =>
        obtain ⟨echo, stays⟩ := reread_single verbatim stable read single
        rw [echo.shape, Level.next_tidied, next] at behind
        obtain ⟨reached, entries', isGrouped, stable', echoes⟩ := ih outside later behind
        refine ⟨reached, .single again :: entries', .single read ?_ ?_ ?_, ?_,
          .cons (.single echo) echoes⟩
        · intro key value open_
          rw [echo.shape] at open_
          cases lineShape : line.shape <;> rw [lineShape] at open_ <;> cases open_
          exact notOpen _ _ lineShape
        · intro key value inline
          rw [echo.shape] at inline
          cases lineShape : line.shape <;> rw [lineShape] at inline <;> cases inline
          exact notInline _ _ lineShape
        · rw [echo.shape, Level.next_tidied]
          exact isGrouped
        · rw [flatMap_cons, stays, stable']
          rfl
  | @inline depth line property value _ _ _ stable shape _ ih =>
    rw [flatMap_cons] at thinned
    obtain ⟨front, back, written, here, later⟩ := thinned.split
    obtain ⟨first, rest, rfl, rfl, rfl⟩ := map_eq_append_iff.mp written
    have single := (settings.style property).segmentLines_inline property value line
    rw [FormatSettings.entry, single] at here
    obtain ⟨none_, same, noMore⟩ := here.cons (by simp)
    cases noMore
    obtain ⟨again, rfl, text⟩ := map_eq_singleton_iff.mp same
    rw [← text] at single
    cases run with
    | cons read behind =>
      obtain ⟨value', againShape, echo, stays⟩ := reread_inline stable shape read single
      rw [againShape] at behind
      obtain ⟨reached, entries', isGrouped, stable', echoes⟩ := ih outside later behind
      refine ⟨reached, _ :: entries', .inline read againShape isGrouped, ?_, .cons echo echoes⟩
      rw [flatMap_cons, FormatSettings.entry, stays, stable']
      rfl
  | @closed depth opening closing property value body _ _ _ stable shape inside last close _ ih =>
    rw [flatMap_cons] at thinned
    obtain ⟨front, back, written, here, later⟩ := thinned.split
    obtain ⟨first, rest, rfl, rfl, rfl⟩ := map_eq_append_iff.mp written
    obtain ⟨opening', body', closing', value', rfl, read, openingShape, bodyRead, closingRead,
      closingShape, behind, echo, stays⟩ := reread_closed stable shape inside last close run here
    obtain ⟨reached, entries', isGrouped, stable', echoes⟩ := ih outside later behind
    have grouped := closed read openingShape bodyRead closingRead closingShape isGrouped
    refine ⟨reached, _ :: entries', by simpa using grouped, ?_, .cons echo echoes⟩
    rw [flatMap_cons, FormatSettings.entry, stays, stable', ← map_append]
  | unfinished => cases outside

theorem Echoes.exists_echo {rest : List Entry} {entry : Entry}
    (echoes : Echoes settings entries rest)
    (member : entry ∈ rest) : ∃ source ∈ entries, source.Echo settings entry := by
  induction echoes with
  | nil => cases member
  | dropped _ _ ih =>
    obtain ⟨source, known, echo⟩ := ih member
    exact ⟨source, mem_cons_of_mem _ known, echo⟩
  | cons here _ ih =>
    rcases mem_cons.mp member with rfl | later
    · exact ⟨_, mem_cons_self, here⟩
    · obtain ⟨source, known, echo⟩ := ih later
      exact ⟨source, mem_cons_of_mem _ known, echo⟩

/-- Lines that were read back after other lines were laid out. -/
structure Reread (settings : FormatSettings) (verbatim : Bool)
    (lines again : List Line) : Prop where
  echoes : Echoes settings (Entry.group lines) (Entry.group again)
  stays : settings.lines verbatim again = again.map Line.text
  mem : ∀ line' ∈ again, ∃ line ∈ lines, line.Echo line' ∨
    (line.shape.inSegment = true ∧ line'.shape.inSegment = true)

theorem Run.reread (verbatim : Bool) {lines lines' : List Line} {level : Level}
    (run : Run (Line.Stable settings) (.outside depth) lines final) (outside : final.segment = none)
    (thinned : Thinned (settings.lines verbatim lines) (lines'.map Line.text))
    (run' : settings.Reads (.outside depth) lines' level) :
    level = final ∧ Reread settings verbatim lines lines' := by
  have grouped := run.entries fun _ _ stable => stable.read
  obtain ⟨reached, entries', grouped', stays, echoes⟩ :=
    grouped.reread verbatim outside thinned run'
  refine ⟨reached, ?_⟩
  have same := grouped'.eq_group
  refine ⟨by rwa [same], by rw [FormatSettings.lines, same, stays], ?_⟩
  intro line' member
  rcases grouped'.mem_cases member with single | ⟨segment, known, inside⟩
  · obtain ⟨_, source, ⟨echo⟩⟩ := echoes.exists_echo single
    exact ⟨_, grouped.mem_of_single source, .inl echo⟩
  · obtain ⟨_, source, ⟨⟩⟩ := echoes.exists_echo known
    have stands := grouped.standsIn (fun _ _ stable => stable.read) _ source
    have again := grouped'.standsIn .refl segment known
    exact ⟨_, stands.together.subset mem_cons_self, .inr
      ⟨(stands.shape_cases _ mem_cons_self).1, (again.shape_cases _ inside).1⟩⟩

end Rereading

end LookML
