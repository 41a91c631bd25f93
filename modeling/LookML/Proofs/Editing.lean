import LookML.Edit
import LookML.Proofs.Coverage
import LookML.Proofs.Insensitivity
import LookML.Proofs.Occurrences

/-!
# Lines of edited texts

An edit within a line changes that line and no other, and an edit that puts lines in front of a
line adds these.  Lines are read by what precedes them and not by their numbers, so behind the
edit they are read as before.
-/

namespace LookML

open Text List

namespace Text

/-- The text around one of its lines: what stands before it holds the lines above, and what stands
behind it the lines below.  Another line can stand in its place, unless it ends with a carriage
return that the break behind it would take. -/
structure Around (text : Text) (above : List Text) (line : Text) (below : List Text)
    (front back : Text) : Prop where
  whole : text = front ++ (line ++ back)
  start : text.lineStart above.length = front.length
  before : ∀ rest, splitBreaks (front ++ rest) = above ++ splitBreaks rest
  behind : ∀ again, '\n' ∉ again → (again.getLast? = some '\r' → line.getLast? = some '\r') →
    splitBreaks (again ++ back) = again :: below

@[simp] theorem lineStart_zero (text : Text) : lineStart 0 text = 0 := by
  cases text <;> rfl

theorem lineStart_break {line : Text} (single : '\n' ∉ line) (number : Nat) (rest : Text) :
    lineStart (number + 1) (line ++ '\n' :: rest) = line.length + 1 + lineStart number rest := by
  induction line with
  | nil => simp [lineStart, Nat.add_comm]
  | cons c line ih =>
    simp only [mem_cons, not_or] at single
    rw [cons_append, lineStart, if_neg (Ne.symm single.1), ih single.2, length_cons]
    omega

theorem exists_around_first {text line : Text} {below : List Text}
    (whole : text.splitBreaks = line :: below) : ∃ back, Around text [] line below [] back := by
  rcases exists_first_break whole with
    ⟨-, rfl, rfl⟩ | ⟨full, rest, rfl, single, rfl, rfl⟩
  · refine ⟨[], by simp, lineStart_zero _, fun _ => rfl, fun again feedless _ => ?_⟩
    rw [append_nil, splitBreaks_of_feedless feedless]
  · rcases dropReturn_cases full with ⟨other, same⟩ | ends
    · rw [same]
      refine ⟨'\n' :: rest, rfl, lineStart_zero _, fun _ => rfl, fun again feedless keeps => ?_⟩
      rw [splitBreaks_break feedless, dropReturn_of_last fun last => other (keeps last)]
    · refine ⟨'\r' :: '\n' :: rest, ?_, lineStart_zero _, fun _ => rfl, fun again feedless _ => ?_⟩
      · conv_lhs => rw [ends, append_assoc]
        rfl
      · rw [append_cons, splitBreaks_break (by simpa using feedless), dropReturn_concat]

theorem exists_around {text line : Text} {above below : List Text}
    (whole : text.splitBreaks = above ++ line :: below) :
    ∃ front back, Around text above line below front back := by
  induction above generalizing text with
  | nil =>
    obtain ⟨back, around⟩ := exists_around_first whole
    exact ⟨[], back, around⟩
  | cons first above ih =>
    rcases exists_first_break whole with ⟨-, -, none_⟩ | ⟨full, rest, rfl, single, rfl, later⟩
    · simp at none_
    · obtain ⟨front, back, around⟩ := ih later
      refine ⟨full ++ '\n' :: front, back, ?_, ?_, fun rest => ?_, around.behind⟩
      · rw [append_assoc, cons_append, ← around.whole]
      · rw [length_cons, lineStart_break single, around.start, length_append, length_cons]
        omega
      · rw [append_assoc, cons_append, splitBreaks_break single, around.before]
        rfl

end Text

section Edits

variable {text : Text} {above below : List Text}

/-- New text in the place of a part of a line. -/
theorem Edit.exists_exchange {lead old tail new : Text}
    (whole : text.lines = above ++ (lead ++ (old ++ tail)) :: below)
    (feedless : '\n' ∉ new) (ends : ∃ c ∈ new.getLast?, c ≠ '\r') :
    ∃ front back, text = front ++ (old ++ back) ∧
      (⟨⟨above.length, lead.length⟩, ⟨above.length, lead.length + old.length⟩, new⟩ : Edit).apply
        text = front ++ (new ++ back) ∧
      (front ++ (new ++ back)).lines = above ++ (lead ++ (new ++ tail)) :: below := by
  have broken := splitBreaks_of_lines whole
  obtain ⟨front, back, around⟩ := exists_around broken
  have split : text = front ++ lead ++ (old ++ (tail ++ back)) := by
    rw [around.whole]
    simp
  refine ⟨front ++ lead, tail ++ back, split, ?_, ?_⟩
  · have before : text.take (front.length + lead.length) = front ++ lead := by
      rw [split, take_left' length_append]
    have behind : text.drop (front.length + (lead.length + old.length)) = tail ++ back := by
      rw [split, ← append_assoc (front ++ lead), drop_left' (by simp)]
    rw [apply, Position.offset, Position.offset, around.start, before, behind, append_assoc]
  · obtain ⟨c, isLast, other⟩ := ends
    obtain ⟨more, rfl⟩ := getLast?_eq_some_iff.mp isLast
    have single := feedless_lines text
    rw [whole, forall_mem_append, forall_mem_cons] at single
    have joined := around.behind (lead ++ (more ++ [c] ++ tail)) ?_ ?_
    · refine lines_of_splitBreaks ?_ (by simp [append_eq_singleton_iff])
      rw [← joined, ← around.before]
      simp
    · simp only [mem_append, not_or] at single feedless ⊢
      exact ⟨single.2.1.1, feedless, single.2.1.2.2⟩
    · intro last
      rcases eq_nil_or_concat tail with rfl | ⟨tail, d, rfl⟩
      · exact absurd (by simpa using last) other
      · simpa only [concat_eq_append, ← append_assoc, getLast?_concat] using last

/-- New lines put in front of a line. -/
theorem Edit.lines_insertion {line : Text} {inserted : List Text}
    (whole : text.lines = above ++ line :: below) (occupied : inserted ≠ [])
    (feedless : ∀ line ∈ inserted, '\n' ∉ line) :
    ((⟨⟨above.length, 0⟩, ⟨above.length, 0⟩, inserted.flatMap (· ++ ['\n'])⟩ :
        Edit).apply text).lines = above ++ (inserted.map dropReturn ++ line :: below) := by
  obtain ⟨front, back, around⟩ := exists_around (splitBreaks_of_lines whole)
  have single := feedless_lines text line (by simp [whole])
  refine lines_of_splitBreaks ?_ ?_
  · rw [apply, Position.offset, Nat.add_zero, around.start, around.whole, take_left, drop_left,
      append_assoc, around.before, splitBreaks_flatMap feedless, around.behind line single id]
  · intro alone
    have several := length_pos_of_ne_nil occupied
    have length := congrArg List.length alone
    simp only [length_append, length_map, length_cons, length_nil] at length
    omega

end Edits

/-- The lines that are neither blank nor comments, without the blanks around their texts. -/
def Line.plain (lines : List Line) : List Line :=
  (lines.filter isLoud).map strip

theorem Line.plain_eq (lines : List Line) :
    plain lines = (lines.map strip).filter isLoud := by
  rw [filter_map]
  rfl

theorem Lint.violations_plain {settings : Settings} (enabled : settings.lint.enabled = true)
    (structural : settings.lint.useFallbackReader = false) (text : Text) :
    (lintText settings text).violations =
      found settings.lint
        (Line.plain (Lexed.ofText settings.format.segmentProperties text).lines) := by
  have stripped := found_map Line.renumbers_strip id (fun _ => rfl) settings.lint
    (loudLines settings text)
  rw [violations_lintText enabled structural]
  exact (stripped.trans (map_id _)).symm

/-- Lines are read anew at the same level, from another number on and with other blanks around
their texts. -/
theorem Nesting.strip_classify {properties : List Text} {nesting other : Nesting}
    (level : other.level = nesting.level) {texts others : List Text}
    (trimmed : others.map trim = texts.map trim) (number offset : Nat) :
    (other.classify properties (number + offset) others).map Line.strip =
      ((nesting.classify properties number texts).map Line.strip).map
        (Line.renumber (· + offset)) := by
  induction texts generalizing nesting other number others with
  | nil =>
    rw [map_nil, map_eq_nil_iff] at trimmed
    rw [trimmed]
    rfl
  | cons text texts ih =>
    obtain ⟨again, others, rfl, here, later⟩ := map_eq_cons_iff.mp trimmed
    have read := nesting.readAt_line properties number text
    have reread := other.readAt_line properties (number + offset) again
    have shape : (other.line properties (number + offset) again).shape =
        (nesting.line properties number text).shape := by
      rw [reread.shape, read.shape, level]
      exact Level.shape_eq_of_trim here
    have depth : (other.line properties (number + offset) again).depth =
        (nesting.line properties number text).depth := by
      rw [reread.depth, read.depth, level]
    have next : (other.advance (other.line properties (number + offset) again)).level =
        (nesting.advance (nesting.line properties number text)).level := by
      rw [level_advance, level_advance, level, shape]
    have head : (other.line properties (number + offset) again).strip =
        (nesting.line properties number text).strip.renumber (· + offset) := by
      rw [Line.strip, Line.strip, Line.renumber, shape, depth]
      simp only [Line.mk.injEq, and_true]
      exact ⟨rfl, here⟩
    have rest := ih next later (number + 1)
    rw [Nat.add_right_comm] at rest
    rw [classify, classify, map_cons, map_cons, map_cons, head, rest]

theorem Nesting.restrip_classify {properties : List Text} {nesting other : Nesting}
    (level : other.level = nesting.level) {texts others : List Text}
    (trimmed : others.map trim = texts.map trim) (number : Nat) :
    (other.classify properties number others).map Line.strip =
      (nesting.classify properties number texts).map Line.strip :=
  (strip_classify level trimmed number 0).trans (map_id _)

/-- The level behind lines does not depend on their numbers and texts. -/
theorem Nesting.level_of_strip {nesting other : Nesting} {lines others : List Line}
    (level : other.level = nesting.level) (same : others.map Line.strip = lines.map Line.strip) :
    (others.foldl advance other).level = (lines.foldl advance nesting).level := by
  have shapes : others.map Line.shape = lines.map Line.shape := by
    have both := congrArg (List.map Line.shape) same
    rw [map_map, map_map] at both
    exact both
  rw [level_foldl, level_foldl, shapes, level]

section Insertion

variable {properties : List Text} {text : Text}

/-- The lines behind others are classified from the state that these lead to. -/
theorem Lexed.classify_split {front rest : List Line}
    (whole : (ofText properties text).lines = front ++ rest) :
    front = ({} : Nesting).classify properties 0 (front.map Line.text) ∧
      rest = (front.foldl Nesting.advance {}).classify properties front.length
        (rest.map Line.text) := by
  have texts : text.lines = front.map Line.text ++ rest.map Line.text := by
    rw [← map_append, ← whole, text_ofText]
  have split : (ofText properties text).lines = _ :=
    (congrArg _ texts).trans (Nesting.classify_append properties {} 0 _ _)
  rw [whole] at split
  obtain ⟨first, second⟩ := append_inj split (by rw [Nesting.length_classify, length_map])
  refine ⟨first, ?_⟩
  rw [← first, length_map, Nat.zero_add] at second
  exact second

/-- A line with the lines above and below it. -/
theorem Lexed.exists_above_below {line : Line} (member : line ∈ (ofText properties text).lines) :
    ∃ above below, (ofText properties text).lines = above ++ line :: below ∧
      above.length = line.number ∧ (∀ other ∈ above, other.number < line.number) ∧
      ∀ other ∈ line :: below, line.number ≤ other.number := by
  obtain ⟨above, below, whole, count⟩ := exists_of_getElem? (getElem?_number member)
  have ascending := ascending_ofText properties text
  rw [whole] at ascending
  refine ⟨above, below, whole, count, ascending.around.1, forall_mem_cons.mpr ⟨Nat.le_refl _, ?_⟩⟩
  exact fun other later => Nat.le_of_lt (ascending.around.2 other later)

/-- Lines between others that lead back to where they start. -/
theorem Lexed.strip_insert {again : Text} {before after : List Line} {inserted : List Text}
    (whole : (ofText properties text).lines = before ++ after)
    (lines : again.lines.map trim =
      (before.map Line.text ++ (inserted ++ after.map Line.text)).map trim)
    (back : (((before.foldl Nesting.advance {}).classify properties before.length inserted).foldl
      Nesting.advance (before.foldl Nesting.advance {})).level =
        (before.foldl Nesting.advance {}).level) :
    (ofText properties again).lines.map Line.strip = before.map Line.strip ++
      (((before.foldl Nesting.advance {}).classify properties before.length inserted).map
        Line.strip ++
        (after.map Line.strip).map (Line.renumber (· + inserted.length))) := by
  obtain ⟨front, behind⟩ := classify_split whole
  rw [map_append, map_append] at lines
  obtain ⟨first, rest, split, sameFirst, sameRest⟩ := map_eq_append_iff.mp lines
  obtain ⟨second, third, rfl, sameSecond, sameThird⟩ := map_eq_append_iff.mp sameRest
  have length : first.length = before.length := by
    simpa using congrArg List.length sameFirst
  have length' : second.length = inserted.length := by
    simpa using congrArg List.length sameSecond
  -- Each piece is read from the level that the lines in front of it lead to.
  have start : (({} : Nesting).classify properties 0 first).map Line.strip =
      before.map Line.strip := by
    rw [front]
    exact Nesting.restrip_classify rfl sameFirst 0
  have level := @Nesting.level_of_strip {} {} _ _ rfl start
  have middle := @Nesting.restrip_classify properties _ _ level _ _ sameSecond before.length
  have level' := Nesting.level_of_strip level middle
  rw [back] at level'
  have final := @Nesting.strip_classify properties _ _ level' _ _ sameThird before.length
    inserted.length
  rw [← behind] at final
  rw [ofText]
  dsimp only
  rw [split, Nesting.classify_append, Nesting.classify_append, map_append, map_append,
    Nat.zero_add, length, length', start, middle, final]

end Insertion

end LookML
