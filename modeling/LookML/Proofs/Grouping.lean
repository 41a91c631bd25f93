import LookML.Segment
import LookML.Proofs.Level

/-!
# Entries of a run

Grouping a run that starts outside segments gives entries of five kinds: a line that
belongs to no segment, a segment on one line, a segment from its opening line to its
terminator, and, at the very end, a segment that was never ended.
-/

namespace LookML

open Text List

/-- The entries that a run of lines from a depth to a level is grouped into. -/
inductive Entries (reads : Level → Line → Prop) :
    Nat → List Line → List Entry → Level → Prop where
  | nil (depth : Nat) : Entries reads depth [] [] (.outside depth)
  | single {depth : Nat} {line : Line} {lines : List Line} {entries : List Entry}
      {final : Level} :
      reads (.outside depth) line →
      (∀ key value, line.shape ≠ .segmentOpen key value) →
      (∀ key value, line.shape ≠ .segmentInline key value) →
      Entries reads ((Level.outside depth).next line.shape).depth lines entries final →
      Entries reads depth (line :: lines) (.single line :: entries) final
  | inline {depth : Nat} {line : Line} {property value : Text} {lines : List Line}
      {entries : List Entry} {final : Level} :
      reads (.outside depth) line → line.shape = .segmentInline property value →
      Entries reads depth lines entries final →
      Entries reads depth (line :: lines)
        (.grouped ⟨property, value, true, line, [], none⟩ :: entries) final
  | closed {depth : Nat} {opening closing : Line} {property value : Text}
      {body lines : List Line} {entries : List Entry} {final : Level} :
      reads (.outside depth) opening → opening.shape = .segmentOpen property value →
      (∀ line ∈ body, reads ⟨depth, some property⟩ line ∧ line.shape = .segmentContent) →
      reads ⟨depth, some property⟩ closing → closing.shape = .segmentClose →
      Entries reads depth lines entries final →
      Entries reads depth (opening :: body ++ closing :: lines)
        (.grouped ⟨property, value, false, opening, body, some closing⟩ :: entries) final
  | unfinished {depth : Nat} {opening : Line} {property value : Text} {body : List Line} :
      reads (.outside depth) opening → opening.shape = .segmentOpen property value →
      (∀ line ∈ body, reads ⟨depth, some property⟩ line ∧ line.shape = .segmentContent) →
      Entries reads depth (opening :: body)
        [.grouped ⟨property, value, false, opening, body, none⟩]
        ⟨depth, some property⟩

section Runs

variable {properties : List Text} {reads : Level → Line → Prop}

theorem Entry.ofLine_of_not_inline {line : Line}
    (notInline : ∀ key value, line.shape ≠ .segmentInline key value) :
    ofLine line = .single line := by
  unfold ofLine
  split
  · rename_i shape
    exact absurd shape (notInline _ _)
  · rfl

theorem Entry.groupFrom_none_of_single {line : Line} (lines : List Line)
    (notOpen : ∀ key value, line.shape ≠ .segmentOpen key value)
    (notInline : ∀ key value, line.shape ≠ .segmentInline key value) :
    groupFrom none (line :: lines) = .single line :: groupFrom none lines := by
  simp only [groupFrom, ofLine_of_not_inline notInline]

/-- A line outside segments leads to a level outside segments, unless it opens one. -/
theorem Level.next_outside {depth : Nat} {line : Line}
    (read : line.ReadAt properties (.outside depth))
    (notOpen : ∀ key value, line.shape ≠ .segmentOpen key value) :
    (outside depth).next line.shape =
      .outside ((outside depth).next line.shape).depth := by
  apply eq_outside
  cases shape : line.shape with
  | segmentOpen key value => exact absurd shape (notOpen key value)
  | segmentClose =>
    obtain ⟨property, inside⟩ := read.inside_of_shape (.inr shape)
    cases inside
  | _ => rfl

variable (readAt : ReadsAt properties reads)
include readAt

/-- Grouping a run, from outside segments or inside one whose lines are collected. -/
private theorem entries_groupFrom (lines : List Line) (final : Level) :
    (∀ depth, Run reads (.outside depth) lines final →
      Entries reads depth lines (Entry.groupFrom none lines) final) ∧
    ∀ depth property value opening body,
      reads (.outside depth) opening → opening.shape = .segmentOpen property value →
      (∀ line ∈ body, reads ⟨depth, some property⟩ line ∧ line.shape = .segmentContent) →
      Run reads ⟨depth, some property⟩ lines final →
      Entries reads depth (opening :: body ++ lines)
        (Entry.groupFrom (some ⟨property, value, false, opening, body, none⟩) lines)
        final := by
  induction lines with
  | nil =>
    refine ⟨?_, ?_⟩
    · intro depth run
      cases run
      exact .nil depth
    · intro depth property value opening body read shape bodyRead run
      cases run
      simpa using .unfinished read shape bodyRead
  | cons line lines ih =>
    refine ⟨?_, ?_⟩
    · intro depth run
      cases run with
      | cons read rest =>
        cases shape : line.shape with
        | segmentOpen property value =>
          rw [shape] at rest
          have grouped := ih.2 depth property value line [] read shape (by simp) rest
          simpa only [Entry.groupFrom, shape, singleton_append] using grouped
        | segmentInline property value =>
          rw [shape] at rest
          simpa only [Entry.groupFrom, Entry.ofLine, shape] using
            .inline read shape (ih.1 depth rest)
        | _ =>
          have notOpen : ∀ key value, line.shape ≠ .segmentOpen key value := by simp [shape]
          have notInline : ∀ key value, line.shape ≠ .segmentInline key value := by
            simp [shape]
          rw [Level.next_outside (readAt _ _ read) notOpen] at rest
          rw [Entry.groupFrom_none_of_single lines notOpen notInline]
          exact .single read notOpen notInline (ih.1 _ rest)
    · intro depth property value opening body read shape bodyRead run
      cases run with
      | cons inside rest =>
        rcases (readAt _ _ inside).shape_of_inside rfl with close | content
        · rw [close] at rest
          simpa only [Entry.groupFrom, close] using
            .closed read shape bodyRead inside close (ih.1 depth rest)
        · rw [content] at rest
          have grouped := ih.2 depth property value opening (body ++ [line]) read shape
            (forall_mem_snoc.mpr ⟨bodyRead, inside, content⟩) rest
          simpa [Entry.groupFrom, content] using grouped

theorem Run.entries {depth : Nat} {lines : List Line} {final : Level}
    (run : Run reads (.outside depth) lines final) :
    Entries reads depth lines (Entry.group lines) final :=
  (entries_groupFrom readAt lines final).1 depth run

end Runs

/-- Whether a line of a shape belongs to a segment. -/
def Shape.inSegment : Shape → Bool
  | .segmentOpen .. | .segmentInline .. | .segmentContent | .segmentClose => true
  | _ => false

theorem Entry.groupFrom_none_of_outside {line : Line} (outside : line.shape.inSegment = false)
    (lines : List Line) :
    groupFrom none (line :: lines) = .single line :: groupFrom none lines := by
  apply groupFrom_none_of_single
  all_goals
    intro key value shape
    simp [shape, Shape.inSegment] at outside

section Grouped

variable {properties : List Text} {reads : Level → Line → Prop} {depth : Nat} {lines : List Line}
  {entries : List Entry} {final : Level} {segment : Segment}

theorem Entry.groupFrom_body (segment : Segment) {body : List Line}
    (content : ∀ line ∈ body, line.shape = .segmentContent) (rest : List Line) :
    groupFrom (some segment) (body ++ rest) =
      groupFrom (some { segment with body := segment.body ++ body }) rest := by
  induction body generalizing segment with
  | nil => simp
  | cons line body ih =>
    rw [cons_append, groupFrom, content line mem_cons_self]
    dsimp only
    rw [ih _ (forall_mem_cons.mp content).2]
    simp

/-- Lines that lead outside segments are grouped by themselves. -/
theorem Entries.groupFrom_append (grouped : Entries reads depth lines entries final)
    (outside : final.segment = none) (rest : List Line) :
    Entry.groupFrom none (lines ++ rest) = entries ++ Entry.groupFrom none rest := by
  induction grouped with
  | nil => rfl
  | single _ notOpen notInline _ ih =>
    rw [cons_append, Entry.groupFrom_none_of_single _ notOpen notInline, ih outside]
    rfl
  | inline _ shape _ ih =>
    simp only [cons_append, Entry.groupFrom, Entry.ofLine, shape, ih outside]
  | closed _ shape content _ close _ ih =>
    have body := fun line member => (content line member).2
    simp only [cons_append, append_assoc, Entry.groupFrom, shape,
      Entry.groupFrom_body _ body, close, ih outside, nil_append]
  | unfinished => cases outside

/-- The entries of a run are what its lines are grouped into. -/
theorem Entries.eq_group (grouped : Entries reads depth lines entries final) :
    Entry.group lines = entries := by
  unfold Entry.group
  induction grouped with
  | nil => rfl
  | single _ notOpen notInline _ ih =>
    rw [Entry.groupFrom_none_of_single _ notOpen notInline, ih]
  | inline _ shape _ ih => simp only [Entry.groupFrom, Entry.ofLine, shape, ih]
  | closed _ shape content _ close _ ih =>
    have body := fun line member => (content line member).2
    simp only [cons_append, Entry.groupFrom, shape, Entry.groupFrom_body _ body,
      close, ih, nil_append]
  | @unfinished _ opening property value body _ shape content =>
    have inside := Entry.groupFrom_body ⟨property, value, false, opening, [], none⟩
      (fun line member => (content line member).2) []
    simp only [append_nil, nil_append] at inside
    simp only [Entry.groupFrom, shape, inside]
    rfl

/-- Grouping keeps every line in its place, whatever the lines are. -/
theorem Entry.flatMap_lines_groupFrom (pending : Option Segment)
    (open_ : ∀ segment ∈ pending, segment.closing = none) (lines : List Line) :
    (groupFrom pending lines).flatMap Entry.lines =
      pending.toList.flatMap Segment.lines ++ lines := by
  have alone (line : Line) : (ofLine line).lines = [line] := by
    unfold ofLine
    split <;> rfl
  induction lines generalizing pending with
  | nil => cases pending <;> simp [groupFrom, Entry.lines]
  | cons line lines ih =>
    cases pending with
    | none =>
      rw [groupFrom]
      split
      · rw [ih _ fun _ same => by cases same; rfl]
        rfl
      · rw [flatMap_cons, alone, ih none fun _ same => by cases same]
        rfl
    | some segment =>
      have unclosed := open_ segment rfl
      rw [groupFrom]
      split
      · rw [ih _ fun _ same => by cases same; exact unclosed]
        simp [Segment.lines, unclosed]
      · rw [flatMap_cons, ih none fun _ same => by cases same]
        simp [Entry.lines, Segment.lines, unclosed]
      · rw [flatMap_cons, ih _ fun _ same => by cases same; rfl]
        simp [Entry.lines, Segment.lines]
      · rw [flatMap_cons, flatMap_cons, alone, ih none fun _ same => by cases same]
        simp [Entry.lines]

theorem Entry.flatMap_lines_group (lines : List Line) :
    (Entry.group lines).flatMap Entry.lines = lines :=
  flatMap_lines_groupFrom none (fun _ same => by cases same) lines

theorem Entries.flatMap_lines (grouped : Entries reads depth lines entries final) :
    entries.flatMap Entry.lines = lines := by
  rw [← grouped.eq_group, Entry.flatMap_lines_group]

/-- A segment as it stands among lines: its lines follow one another at one depth, and one that
is not ended goes on to the last of them. -/
structure Segment.StandsIn (segment : Segment) (lines : List Line) : Prop where
  inline : segment.inline = true → segment.lines = [segment.opening] ∧
    segment.opening.shape = .segmentInline segment.property segment.value
  opens : segment.inline = false →
    segment.opening.shape = .segmentOpen segment.property segment.value
  body : ∀ line ∈ segment.body, line.shape = .segmentContent
  closes : ∀ line ∈ segment.closing, line.shape = .segmentClose
  level : ∀ line ∈ segment.lines, line.depth = segment.depth
  together : segment.lines <:+: lines
  unterminated : segment.terminated = false → segment.lines <:+ lines

namespace Segment.StandsIn

theorem behind (stands : segment.StandsIn lines) (front : List Line) :
    segment.StandsIn (front ++ lines) :=
  { stands with
    together := stands.together.trans (suffix_append front lines).isInfix
    unterminated := fun open_ => (stands.unterminated open_).trans (suffix_append front lines) }

theorem shape_cases (stands : segment.StandsIn lines) :
    ∀ line ∈ segment.lines, line.shape.inSegment = true ∧ (line = segment.opening ∨
      line.shape = .segmentContent ∨ line.shape = .segmentClose) := by
  intro line member
  simp only [Segment.lines, cons_append, mem_cons, mem_append, Option.mem_toList] at member
  rcases member with rfl | inBody | closing
  · refine ⟨?_, .inl rfl⟩
    cases inline : segment.inline with
    | true => rw [(stands.inline inline).2]; rfl
    | false => rw [stands.opens inline]; rfl
  · have shape := stands.body line inBody
    exact ⟨by rw [shape]; rfl, .inr (.inl shape)⟩
  · have shape := stands.closes line closing
    exact ⟨by rw [shape]; rfl, .inr (.inr shape)⟩

theorem opening_ne (stands : segment.StandsIn lines) :
    segment.opening.shape ≠ .segmentContent ∧ segment.opening.shape ≠ .segmentClose := by
  cases inline : segment.inline with
  | true => simp [(stands.inline inline).2]
  | false => simp [stands.opens inline]

/-- The lines of a segment are grouped into it again. -/
theorem groupFrom (stands : segment.StandsIn lines) {rest : List Line}
    (last : segment.terminated = false → rest = []) :
    Entry.groupFrom none (segment.lines ++ rest) =
      .grouped segment :: Entry.groupFrom none rest := by
  obtain ⟨property, value, inline, opening, body, closing⟩ := segment
  cases inline with
  | true =>
    obtain ⟨alone, shape⟩ := stands.inline rfl
    obtain ⟨rfl, none_⟩ := append_eq_nil_iff.mp (cons.inj alone).2
    obtain rfl := Option.toList_eq_nil_iff.mp none_
    simp only at shape
    simp [Segment.lines, Entry.groupFrom, Entry.ofLine, shape]
  | false =>
    have shape := stands.opens rfl
    have content := Entry.groupFrom_body ⟨property, value, false, opening, [], none⟩ stands.body
    simp only at shape content
    cases closing with
    | none =>
      rw [last rfl]
      simp only [Segment.lines, cons_append, Entry.groupFrom, shape, append_assoc, content]
      rfl
    | some closing =>
      have close := stands.closes closing rfl
      simp only [Segment.lines, Option.toList_some, cons_append, append_assoc, Entry.groupFrom,
        shape, content, close, nil_append]

/-- A segment whose lines stand in a run is an entry of it. -/
theorem mem_group {source front rest : List Line} (stands : segment.StandsIn source)
    (readAt : ReadsAt properties reads)
    (run : Run reads (.outside depth) (front ++ (segment.lines ++ rest)) final)
    (last : segment.terminated = false → rest = []) :
    .grouped segment ∈ Entry.group (front ++ (segment.lines ++ rest)) := by
  obtain ⟨middle, before, back⟩ := run.split
  have isOutside : middle.segment = none := by
    cases back with
    | cons read _ =>
      rw [(readAt _ _ read).eq_outside stands.opening_ne.1 stands.opening_ne.2]
      rfl
  rw [Entry.group, (before.entries readAt).groupFrom_append isOutside, stands.groupFrom last]
  simp

end Segment.StandsIn

theorem Entries.standsIn (readAt : ReadsAt properties reads)
    (grouped : Entries reads depth lines entries final) :
    ∀ segment, .grouped segment ∈ entries → segment.StandsIn lines := by
  induction grouped with
  | nil => simp
  | @single _ line _ _ _ _ _ _ _ ih =>
    exact fun segment member => (ih segment (by simpa using member)).behind [line]
  | @inline _ line _ _ lines _ _ _ shape _ ih =>
    rintro segment (_ | ⟨_, later⟩)
    · exact ⟨fun _ => ⟨rfl, shape⟩, nofun, nofun, nofun, by simp [Segment.lines, Segment.depth],
        ⟨[], lines, rfl⟩, nofun⟩
    · exact (ih segment later).behind [line]
  | @closed _ opening closing _ _ body lines _ _ read shape content readClose close _ ih =>
    rintro segment (_ | ⟨_, later⟩)
    · refine ⟨nofun, fun _ => shape, fun line member => (content line member).2, ?_, ?_,
        ⟨[], lines, by simp [Segment.lines]⟩, nofun⟩
      · intro line same
        cases same
        exact close
      · simp only [Segment.lines, Segment.depth, cons_append, mem_cons, mem_append,
          Option.toList_some, not_mem_nil, or_false, (readAt _ _ read).depth]
        rintro line (rfl | inBody | rfl)
        · exact (readAt _ _ read).depth
        · exact (readAt _ _ (content line inBody).1).depth
        · exact (readAt _ _ readClose).depth
    · simpa using (ih segment later).behind (opening :: body ++ [closing])
  | unfinished read shape content =>
    intro segment member
    cases mem_singleton.mp member
    refine ⟨nofun, fun _ => shape, fun line member => (content line member).2, nofun, ?_,
      by simp [Segment.lines], by simp [Segment.lines]⟩
    simp only [Segment.lines, Segment.depth, Option.toList_none, append_nil, mem_cons,
      (readAt _ _ read).depth]
    rintro line (rfl | inBody)
    · exact (readAt _ _ read).depth
    · exact (readAt _ _ (content line inBody).1).depth

theorem Entries.terminated (grouped : Entries reads depth lines entries final)
    (outside : final.segment = none) :
    ∀ segment, .grouped segment ∈ entries → segment.terminated = true := by
  induction grouped with
  | nil => simp
  | single _ _ _ _ ih => simpa using ih outside
  | inline _ _ _ ih | closed _ _ _ _ _ _ ih => simpa [Segment.terminated] using ih outside
  | unfinished => cases outside

theorem Entries.mem_of_single (grouped : Entries reads depth lines entries final) {line : Line}
    (member : .single line ∈ entries) : line ∈ lines := by
  rw [← grouped.flatMap_lines]
  exact mem_flatMap.mpr ⟨_, member, mem_singleton_self line⟩

/-- A line that stands by itself belongs to no segment. -/
theorem Entries.inSegment_of_single
    (readAt : ReadsAt properties reads)
    (grouped : Entries reads depth lines entries final) :
    ∀ line, .single line ∈ entries → line.shape.inSegment = false := by
  induction grouped with
  | nil => simp
  | @single depth line _ _ _ read notOpen notInline _ ih =>
    have plain := Shape.read_ne_segment properties line.text
    rw [← (readAt _ _ read).shape_of_outside rfl] at plain
    rintro other (_ | ⟨_, later⟩)
    · cases shape : line.shape <;> first | rfl | simp [shape] at notOpen notInline plain
    · exact ih other later
  | inline _ _ _ ih | closed _ _ _ _ _ _ ih => simpa using ih
  | unfinished => simp

/-- A line of a run stands by itself or in a segment. -/
theorem Entries.mem_cases (grouped : Entries reads depth lines entries final) {line : Line}
    (member : line ∈ lines) : Entry.single line ∈ entries ∨
      ∃ segment, Entry.grouped segment ∈ entries ∧ line ∈ segment.lines := by
  rw [← grouped.flatMap_lines] at member
  obtain ⟨entry, known, inside⟩ := mem_flatMap.mp member
  cases entry with
  | single other =>
    cases mem_singleton.mp inside
    exact .inl known
  | grouped segment => exact .inr ⟨segment, known, inside⟩

end Grouped

end LookML
