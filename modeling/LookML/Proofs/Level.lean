import LookML.Line.Lexer

/-!
# Runs of lines

How a line is read depends on very little of what came before: the number of open
blocks and the segment that is open, if any.  This pair is a level.  A run is a list
of lines each of which was read at the level that the lines before it lead to, so runs
can be cut and put together where their levels meet.  The lines of a text are a run
from the level outside everything.
-/

namespace LookML

open Text List

theorem forall_mem_snoc {α : Type} {motive : α → Prop} {items : List α} {last : α} :
    (∀ item ∈ items ++ [last], motive item) ↔ (∀ item ∈ items, motive item) ∧ motive last := by
  rw [forall_mem_append, forall_mem_singleton]

/-- What the reading of a line depends on: the number of open blocks, and the property
of the segment that is open. -/
structure Level where
  depth : Nat
  segment : Option Text
  deriving Repr, DecidableEq

namespace Level

/-- The level outside every segment, with a number of open blocks. -/
def outside (depth : Nat) : Level :=
  ⟨depth, none⟩

/-- What a line at this level is. -/
def shape (properties : List Text) (level : Level) (text : Text) : Shape :=
  match level.segment with
  | some _ => .readInSegment text
  | none => .read properties text

/-- The level behind a line. -/
def next (level : Level) : Shape → Level
  | .blockOpen .. => { level with depth := level.depth + 1 }
  | .blockClose => { level with depth := level.depth - 1 }
  | .segmentOpen key _ => { level with segment := some key }
  | .segmentClose => { level with segment := none }
  | .blank | .comment | .inlineBlock .. | .property .. | .segmentInline ..
  | .segmentContent | .content => level

@[simp] theorem depth_outside (depth : Nat) : (outside depth).depth = depth :=
  rfl

@[simp] theorem segment_outside (depth : Nat) : (outside depth).segment = none :=
  rfl

theorem eq_outside {level : Level} (outside : level.segment = none) :
    level = .outside level.depth := by
  obtain ⟨depth, segment⟩ := level
  cases outside
  rfl

end Level

namespace Shape

/-- Inside a segment a line is read as nothing but segment content or its end. -/
theorem readInSegment_eq (text : Text) :
    readInSegment text = .segmentClose ∨ readInSegment text = .segmentContent := by
  unfold readInSegment
  split
  · exact .inl rfl
  · exact .inr rfl

private theorem ofSegment_eq (key value : Text) :
    ofSegment key value = .segmentInline key value ∨
      ofSegment key value = .segmentOpen key value := by
  unfold ofSegment
  split
  · exact .inl rfl
  · exact .inr rfl

private theorem ofBlock?_eq {code : Text} {shape : Shape} (found : ofBlock? code = some shape) :
    (∃ key name, shape = .blockOpen key name) ∨
      ∃ key name value, shape = .inlineBlock key name value := by
  unfold ofBlock? at found
  split at found
  · cases found
    unfold ofBlockOpener
    split
    · exact .inl ⟨_, _, rfl⟩
    · exact .inl ⟨_, _, rfl⟩
  · obtain ⟨⟨key, name, body⟩, -, rfl⟩ := Option.map_eq_some_iff.mp found
    exact .inr ⟨_, _, _, rfl⟩

/-- Outside segments no line is read as the continuation of one. -/
theorem read_ne_segment (properties : List Text) (text : Text) :
    read properties text ≠ .segmentContent ∧ read properties text ≠ .segmentClose := by
  have block (code : Text) (default : Shape)
      (plain : default ≠ .segmentContent ∧ default ≠ .segmentClose) :
      (ofBlock? code).getD default ≠ .segmentContent ∧
        (ofBlock? code).getD default ≠ .segmentClose := by
    cases found : ofBlock? code with
    | none => simpa using plain
    | some shape =>
      rcases ofBlock?_eq found with ⟨key, name, rfl⟩ | ⟨key, name, value, rfl⟩
      · simp
      · simp
  unfold read
  dsimp only
  split
  · simp
  split
  · simp
  split
  · simp
  split
  · split
    · rename_i key value _ _
      rcases ofSegment_eq key value with equality | equality <;> simp [equality]
    · exact block _ _ (by simp)
  · exact block _ _ (by simp)

end Shape

namespace Line

/-- Whether a line was read at a level. -/
structure ReadAt (properties : List Text) (level : Level) (line : Line) : Prop where
  depth : line.depth = level.depth
  shape : line.shape = level.shape properties line.text

namespace ReadAt

variable {properties : List Text} {level : Level} {line : Line}

theorem shape_of_inside {property : Text} (read : line.ReadAt properties level)
    (inside : level.segment = some property) :
    line.shape = .segmentClose ∨ line.shape = .segmentContent := by
  have shape := read.shape
  simp only [Level.shape, inside] at shape
  rw [shape]
  exact Shape.readInSegment_eq line.text

/-- A line that neither ends nor continues a segment was read outside segments. -/
theorem eq_outside (read : line.ReadAt properties level)
    (noContent : line.shape ≠ .segmentContent) (noClose : line.shape ≠ .segmentClose) :
    level = .outside line.depth := by
  have outside : level.segment = none := by
    cases inside : level.segment with
    | none => rfl
    | some property =>
      rcases read.shape_of_inside inside with close | content
      · exact absurd close noClose
      · exact absurd content noContent
  rw [read.depth]
  exact Level.eq_outside outside

theorem outside_of {shape : Shape} {depth : Nat} (read : line.ReadAt properties level)
    (isShape : line.shape = shape) (plain : shape ≠ .segmentContent ∧ shape ≠ .segmentClose)
    (atDepth : line.depth = depth) : level = .outside depth := by
  rw [read.eq_outside (isShape ▸ plain.1) (isShape ▸ plain.2), atDepth]

/-- A line that does not close the block at a depth leads to no lesser depth. -/
theorem le_depth_next {depth : Nat} (read : line.ReadAt properties level)
    (deep : depth ≤ level.depth)
    (stays : ¬(line.shape = .blockClose ∧ line.depth = depth)) :
    depth ≤ (level.next line.shape).depth := by
  have at_ := read.depth
  cases shape : line.shape <;> simp_all [Level.next] <;> omega

theorem shape_of_outside (read : line.ReadAt properties level)
    (outside : level.segment = none) : line.shape = .read properties line.text := by
  have shape := read.shape
  simp only [Level.shape, outside] at shape
  exact shape

theorem inside_of_shape (read : line.ReadAt properties level)
    (shape : line.shape = .segmentContent ∨ line.shape = .segmentClose) :
    ∃ property, level.segment = some property := by
  cases inside : level.segment with
  | some property => exact ⟨property, rfl⟩
  | none =>
    have read := read.shape_of_outside inside
    have plain := Shape.read_ne_segment properties line.text
    rcases shape with content | close
    · exact absurd (read.symm.trans content) plain.1
    · exact absurd (read.symm.trans close) plain.2

end ReadAt

end Line

/-- A way of reading by which lines are read at their levels. -/
def ReadsAt (properties : List Text) (reads : Level → Line → Prop) : Prop :=
  ∀ level line, reads level line → line.ReadAt properties level

theorem ReadsAt.refl {properties : List Text} : ReadsAt properties (Line.ReadAt properties) :=
  fun _ _ read => read

/-- Lines read one after another from one level to another.  What is known of a line and
the level it was read at is a parameter. -/
inductive Run (reads : Level → Line → Prop) : Level → List Line → Level → Prop where
  | nil (level : Level) : Run reads level [] level
  | cons {level final : Level} {line : Line} {lines : List Line} :
      reads level line → Run reads (level.next line.shape) lines final →
      Run reads level (line :: lines) final

namespace Run

variable {reads : Level → Line → Prop} {start middle final : Level} {line : Line}
  {lines first second : List Line}

theorem single (read : reads start line) : Run reads start [line] (start.next line.shape) :=
  .cons read (.nil _)

theorem append (front : Run reads start first middle) (back : Run reads middle second final) :
    Run reads start (first ++ second) final := by
  induction front with
  | nil => exact back
  | cons read _ ih => exact .cons read (ih back)

theorem split (run : Run reads start (first ++ second) final) :
    ∃ middle, Run reads start first middle ∧ Run reads middle second final := by
  induction first generalizing start with
  | nil => exact ⟨start, .nil start, run⟩
  | cons line first ih =>
    cases run with
    | cons read rest =>
      obtain ⟨middle, front, back⟩ := ih rest
      exact ⟨middle, .cons read front, back⟩

theorem unique {other : Level} (run : Run reads start lines final)
    (again : Run reads start lines other) : other = final := by
  induction run with
  | nil =>
    cases again
    rfl
  | cons _ _ ih =>
    cases again with
    | cons _ rest => exact ih rest

theorem mono {reads' : Level → Line → Prop} (run : Run reads start lines final)
    (implies : ∀ level line, reads level line → reads' level line) :
    Run reads' start lines final := by
  induction run with
  | nil => exact .nil _
  | cons read _ ih => exact .cons (implies _ _ read) ih

theorem exists_of_mem (run : Run reads start lines final) (member : line ∈ lines) :
    ∃ level, reads level line := by
  induction run with
  | nil => cases member
  | cons read _ ih =>
    rcases mem_cons.mp member with rfl | later
    · exact ⟨_, read⟩
    · exact ih later

/-- A run of lines that change no level stays at its level. -/
theorem eq_of_steady (run : Run reads start lines final)
    (steady : ∀ line ∈ lines, ∀ level : Level, level.next line.shape = level) :
    final = start := by
  induction run with
  | nil => rfl
  | @cons level final line lines _ _ ih =>
    have same := ih (forall_mem_cons.mp steady).2
    rw [same, steady line mem_cons_self]

/-- Lines that change no level are a run wherever they were read. -/
theorem of_steady {level : Level}
    (steady : ∀ line ∈ lines, reads level line ∧ level.next line.shape = level) :
    Run reads level lines level := by
  induction lines with
  | nil => exact .nil level
  | cons line lines ih =>
    obtain ⟨read, same⟩ := steady line mem_cons_self
    refine .cons read ?_
    rw [same]
    exact ih (forall_mem_cons.mp steady).2

end Run

namespace Nesting

/-- The level of what is open. -/
def level (nesting : Nesting) : Level :=
  ⟨nesting.depth, nesting.segment.map OpenSegment.property⟩

theorem readAt_line (properties : List Text) (nesting : Nesting) (number : Nat) (text : Text) :
    (nesting.line properties number text).ReadAt properties nesting.level := by
  constructor
  · rfl
  · obtain ⟨blocks, segment⟩ := nesting
    cases segment <;> rfl

theorem level_advance (nesting : Nesting) (line : Line) :
    (nesting.advance line).level = nesting.level.next line.shape := by
  unfold advance
  split <;> rename_i shape <;> simp [shape, level, Level.next, depth]

theorem run_classify (properties : List Text) (nesting : Nesting) (number : Nat)
    (texts : List Text) :
    Run (Line.ReadAt properties) nesting.level (nesting.classify properties number texts)
      ((nesting.classify properties number texts).foldl advance nesting).level := by
  induction texts generalizing nesting number with
  | nil => exact .nil _
  | cons text texts ih =>
    refine .cons (nesting.readAt_line properties number text) ?_
    rw [← level_advance]
    exact ih _ _

theorem level_foldl (nesting : Nesting) (lines : List Line) :
    (lines.foldl advance nesting).level =
      (lines.map Line.shape).foldl Level.next nesting.level := by
  induction lines generalizing nesting with
  | nil => rfl
  | cons line lines ih => rw [foldl_cons, ih, level_advance, map_cons, foldl_cons]

theorem length_classify (properties : List Text) (nesting : Nesting) (number : Nat)
    (texts : List Text) :
    (nesting.classify properties number texts).length = texts.length := by
  induction texts generalizing nesting number with
  | nil => rfl
  | cons text texts ih => simp [classify, ih]

/-- Lines are classified from the state that the lines before them lead to. -/
theorem classify_append (properties : List Text) (nesting : Nesting) (number : Nat)
    (first second : List Text) :
    nesting.classify properties number (first ++ second) =
      nesting.classify properties number first ++
        ((nesting.classify properties number first).foldl advance nesting).classify properties
          (number + first.length) second := by
  induction first generalizing nesting number with
  | nil => rfl
  | cons text first ih =>
    simp only [cons_append, classify, ih, foldl_cons, length_cons]
    rw [Nat.add_right_comm, Nat.add_assoc]

@[simp] theorem text_classify (properties : List Text) (nesting : Nesting) (number : Nat)
    (texts : List Text) :
    (nesting.classify properties number texts).map Line.text = texts := by
  induction texts generalizing nesting number with
  | nil => rfl
  | cons text texts ih =>
    simp only [classify, map_cons, ih]
    rfl

theorem number_classify (properties : List Text) (nesting : Nesting) (number : Nat)
    (texts : List Text) :
    (nesting.classify properties number texts).map Line.number =
      List.range' number texts.length := by
  induction texts generalizing nesting number with
  | nil => rfl
  | cons text texts ih =>
    simp only [classify, map_cons, ih, length_cons, range'_succ]
    rfl

end Nesting

namespace Lexed

theorem run_ofText (properties : List Text) (text : Text) :
    Run (Line.ReadAt properties) (.outside 0) (ofText properties text).lines
      ((ofText properties text).lines.foldl Nesting.advance {}).level :=
  Nesting.run_classify properties {} 0 text.lines

theorem number_ofText (properties : List Text) (text : Text) :
    (ofText properties text).lines.map Line.number =
      List.range (ofText properties text).lines.length := by
  have numbers := Nesting.number_classify properties {} 0 text.lines
  have count := Nesting.length_classify properties {} 0 text.lines
  simp only [ofText, numbers, count, range_eq_range']

theorem text_ofText (properties : List Text) (text : Text) :
    (ofText properties text).lines.map Line.text = text.lines :=
  Nesting.text_classify properties {} 0 text.lines

variable {properties : List Text} {text : Text} {line : Line}

theorem text_mem_lines (member : line ∈ (ofText properties text).lines) :
    line.text ∈ text.lines := by
  rw [← text_ofText properties]
  exact mem_map_of_mem member

theorem getElem?_text {number : Nat} (found : (ofText properties text).lines[number]? = some line) :
    text.lines[number]? = some line.text := by
  rw [← text_ofText properties, getElem?_map, found]
  rfl

end Lexed

end LookML
