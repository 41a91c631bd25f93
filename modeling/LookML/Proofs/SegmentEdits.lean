import LookML.Proofs.Editing
import LookML.Proofs.Reassembly
import LookML.Proofs.Resemblance

/-!
# A line of a segment written anew

A line of a segment may be given another text that is read as a line of the same kind.  Then one
segment changes, and of the properties of all blocks only the one whose value it is.
-/

namespace LookML

open Text Code List

variable {text : Text} {line : Line} {entry : Entry}

section Tidying

/-- The lines of a text without the blanks around them. -/
def Text.tidy (text : Text) : Text :=
  joinLines (text.lines.map trim)

theorem Text.lines_tidy (occupied : text.tidy ≠ []) : text.tidy.lines = text.lines.map trim := by
  have feedless : ∀ line ∈ text.lines.map trim, '\n' ∉ line := by
    intro line member feed
    obtain ⟨origin, isLine, rfl⟩ := mem_map.mp member
    exact feedless_lines text origin isLine (mem_of_mem_trim feed)
  rw [lines_of_ne_nil occupied, tidy]
  rcases eq_nil_or_concat text.lines with none_ | ⟨front, last, whole⟩
  · rw [tidy, none_] at occupied
    exact absurd rfl occupied
  · rw [whole, concat_eq_append, map_append, map_singleton] at feedless ⊢
    rw [splitBreaks_joinLines feedless, map_map]
    refine congrArg (· ++ _) (map_congr_left fun line _ => dropReturn_of_last fun ends => ?_)
    exact absurd ((trimmed_trim line).last '\r' ends) (by decide)

theorem Lexed.lines_tidy {properties : List Text} (occupied : text.tidy ≠ []) :
    (ofText properties text.tidy).lines = (ofText properties text).lines.map Line.strip := by
  have trimmed : text.tidy.lines.map trim = text.lines.map trim := by
    rw [Text.lines_tidy occupied, map_map]
    exact map_congr_left fun line _ => trim_trim line
  have same := @Nesting.restrip_classify properties {} {} rfl _ _ trimmed 0
  refine Eq.trans ?_ same
  refine ((map_congr_left fun line member => ?_).trans (map_id _)).symm
  have isLine : line.text ∈ text.lines.map trim := by
    rw [← Text.lines_tidy occupied]
    exact text_mem_lines member
  obtain ⟨origin, -, isTrimmed⟩ := mem_map.mp isLine
  rw [Line.strip, Line.stripped, ← isTrimmed, trim_trim, isTrimmed]
  rfl

/-- Texts are linted by what their lines say. -/
theorem Lint.violations_tidy {settings : Settings} (enabled : settings.lint.enabled = true)
    (structural : settings.lint.useFallbackReader = false) (occupied : text.tidy ≠ []) :
    (lintText settings text.tidy).violations = (lintText settings text).violations := by
  rw [violations_plain enabled structural, violations_plain enabled structural, Line.plain_eq,
    Line.plain_eq, Lexed.lines_tidy occupied, map_map]
  have twice : Line.strip ∘ Line.strip = Line.strip :=
    funext fun line => by simp [Line.strip, Line.stripped]
  rw [twice]

end Tidying

section Lexing

/-- A shape whose value, if it is that of a segment, is read from another line. -/
def Shape.revalue (written : Text) : Shape → Shape
  | .segmentOpen key value =>
    .segmentOpen key (((property? (trim written)).map Prod.snd).getD value)
  | .segmentInline key value =>
    .segmentInline key (((property? (trim written)).map Prod.snd).getD value)
  | shape => shape

/-- The line of a number, if it is one of a segment, with another text. -/
def Line.retext (number : Nat) (written : Text) (line : Line) : Line :=
  if line.number = number ∧ line.shape.inSegment = true then
    { line with text := written, shape := line.shape.revalue written }
  else line

theorem Line.retext_of_ne {number : Nat} (other : line.number ≠ number)
    (written : Text) : line.retext number written = line :=
  if_neg fun both => other both.1

theorem Line.rewrites_retext (number : Nat) (written : Text) :
    Line.Rewrites (retext number written) where
  number := fun line => by
    unfold retext
    split <;> rfl
  depth := fun line => by
    unfold retext
    split <;> rfl
  frame := fun line => by
    unfold retext
    split
    · cases shape : line.shape with
      | segmentOpen key value => exact .segmentOpen _ _ _
      | segmentInline key value => exact .segmentInline _ _ _
      | _ => exact .refl _
    · exact .refl _
  elsewhere := fun line outside => if_neg fun both => by
    rw [outside] at both
    cases both.2

/-- A line of a segment that is written anew is read as one again, and so are all other lines. -/
theorem Lexed.lines_retext {properties : List Text} {again written : Text} {above below : List Line}
    (whole : (ofText properties text).lines = above ++ line :: below)
    (inSegment : line.shape.inSegment = true)
    (kept : ∀ level : Level, level.shape properties line.text = line.shape →
      level.shape properties written = line.shape.revalue written)
    (lines : again.lines = above.map Line.text ++ written :: below.map Line.text) :
    (ofText properties again).lines =
      (ofText properties text).lines.map (Line.retext line.number written) := by
  have rewrites := Line.rewrites_retext line.number written
  have ascending := ascending_ofText properties text
  rw [whole] at ascending
  obtain ⟨before, after⟩ := ascending.around
  have here : line.retext line.number written =
      { line with text := written, shape := line.shape.revalue written } :=
    if_pos ⟨rfl, inSegment⟩
  have elsewhere {others : List Line} (apart : ∀ other ∈ others, other.number ≠ line.number) :
      others.map (fun other => (other.retext line.number written).text) = others.map Line.text :=
    map_congr_left fun other member => by rw [Line.retext_of_ne (apart other member)]
  refine rewrites.toRelabels.retitles.lines_ofText rewrites.number ?_ ?_
  · rw [lines, whole, map_append, map_cons, here,
      elsewhere fun other member => Nat.ne_of_lt (before other member),
      elsewhere fun other member => Nat.ne_of_gt (after other member)]
  · intro other member level read
    by_cases same : other.number = line.number
    · obtain rfl : other = line := by
        have found := getElem?_number member
        rw [same, getElem?_number (by simp [whole])] at found
        exact (Option.some.inj found).symm
      rw [here]
      exact ⟨read.depth, (kept level read.shape.symm).symm⟩
    · rwa [Line.retext_of_ne same]

end Lexing

section Owners

variable {lexed : Lexed} {start : Nat} {key : Text} {front rest earlier later : List Entry}
  {header : Line}

/-- The segment that an entry is. -/
def Entry.segment? : Entry → Option Segment
  | .single _ => none
  | .grouped segment => some segment

/-- The segment that counts as a property of the block with a header on a line: the first with
its key between the braces, at the depth of the children. -/
def Lexed.segment? (lexed : Lexed) (start : Nat) (key : Text) : Option Segment :=
  match (Entry.group lexed.lines).dropWhile fun entry => entry.opening.number ≠ start with
  | .single header :: rest =>
    if header.shape.opensBlock then
      ((Entry.cutAtClose (header.depth + 1) rest).1.find? fun entry =>
        (entry.property? (header.depth + 1)).any (·.1 = key)).bind Entry.segment?
    else none
  | _ => none

/-- The place of the segment that counts as a property of a block. -/
structure Lexed.Holds (lexed : Lexed) (start : Nat) (key : Text) (segment : Segment)
    (front : List Entry) (header : Line) (rest earlier later : List Entry) : Prop where
  whole : Entry.group lexed.lines = front ++ .single header :: rest
  opens : header.shape.opensBlock = true
  number : header.number = start
  inside : (Entry.cutAtClose (header.depth + 1) rest).1 = earlier ++ .grouped segment :: later
  depth : segment.depth = header.depth + 1
  property : segment.property = key
  first : ∀ entry ∈ earlier, ∀ property ∈ entry.property? (header.depth + 1), property.1 ≠ key

theorem Lexed.exists_of_segment? {segment : Segment}
    (found : lexed.segment? start key = some segment) :
    ∃ front header rest earlier later, lexed.Holds start key segment front header rest earlier
      later := by
  rw [segment?] at found
  split at found
  next header rest dropped =>
    have whole : Entry.group lexed.lines =
        ((Entry.group lexed.lines).takeWhile fun entry => entry.opening.number ≠ start) ++
          .single header :: rest := by
      rw [← dropped, takeWhile_append_dropWhile]
    have number : header.number = start := by
      have head := head?_dropWhile_not
        (fun entry : Entry => decide (entry.opening.number ≠ start)) (Entry.group lexed.lines)
      rw [dropped] at head
      exact not_not.mp (of_decide_eq_false head)
    split at found
    next opens =>
      obtain ⟨entry, isFirst, isSegment⟩ := Option.bind_eq_some_iff.mp found
      obtain ⟨holds, earlier, later, inside, before⟩ := find?_eq_some_iff_append.mp isFirst
      cases entry with
      | single line => cases isSegment
      | grouped other =>
        cases isSegment
        rw [Entry.property?] at holds
        split at holds
        next depth =>
          refine ⟨_, header, rest, earlier, later, whole, opens, number, inside, depth, ?_, ?_⟩
          · simpa using holds
          · intro entry member property isProperty same
            have not_ := before entry member
            rw [Option.mem_def.mp isProperty] at not_
            simp [same] at not_
        next => cases holds
    next => cases found
  next => cases found

theorem Entry.cutAtClose_subset (depth : Nat) (entries : List Entry) :
    (cutAtClose depth entries).1 ⊆ entries := by
  nth_rewrite 2 [(cutAtClose_parts depth entries).1]
  exact subset_append_left _ _

theorem Lexed.Holds.mem {segment : Segment}
    (held : lexed.Holds start key segment front header rest earlier later) :
    .grouped segment ∈ rest := by
  apply Entry.cutAtClose_subset (header.depth + 1)
  rw [held.inside]
  simp

theorem Lexed.Holds.mem_group {segment : Segment}
    (held : lexed.Holds start key segment front header rest earlier later) :
    .grouped segment ∈ Entry.group lexed.lines := by
  rw [held.whole]
  exact mem_append_right _ (mem_cons_of_mem _ held.mem)

variable {reads : Level → Line → Prop} {properties : List Text} {depth : Nat} {lines : List Line}
  {entries : List Entry} {final : Level}

/-- The lines of a segment stand among the others, in order. -/
theorem Entries.lines_of_grouped (grouped : Entries reads depth lines entries final)
    (ascending : Ascending lines) {segment : Segment} (member : .grouped segment ∈ entries) :
    segment.lines ⊆ lines ∧ Ascending segment.lines := by
  rw [← grouped.flatMap_lines] at ascending ⊢
  constructor
  · exact fun line isLine => mem_flatMap.mpr ⟨_, member, isLine⟩
  · exact (pairwise_flatMap.mp ascending).1 _ member

/-- The lines of a segment of a block stand behind its header. -/
theorem Lexed.Holds.lt_number {segment : Segment}
    (held : (ofText properties text).Holds start key segment front header rest earlier
      later) : ∀ line ∈ segment.lines, start < line.number := by
  have grouped := Run.entries .refl (run_ofText properties text)
  have ascending := ascending_ofText properties text
  have openings := ascending_openings properties text
  rw [held.whole, map_append, map_cons] at openings
  have begins : header.number < segment.opening.number :=
    openings.around.2 _ (mem_map_of_mem held.mem)
  rw [held.number] at begins
  intro line isLine
  rcases mem_cons.mp isLine with rfl | others
  · exact begins
  · have ordered := (grouped.lines_of_grouped ascending held.mem_group).2
    exact begins.trans ((pairwise_cons.mp ordered).1 line others)

/-- Lines of one number are lines of one entry. -/
theorem Entries.eq_of_number (grouped : Entries reads depth lines entries final)
    (ascending : Ascending lines) {other : Entry} {again : Line}
    (first : entry ∈ entries) (second : other ∈ entries) (inFirst : line ∈ entry.lines)
    (inSecond : again ∈ other.lines) (number : line.number = again.number) : entry = other := by
  rw [← grouped.flatMap_lines, Ascending, pairwise_flatMap] at ascending
  by_contra different
  let Apart (entry other : Entry) : Prop :=
    ∀ line ∈ entry.lines, ∀ again ∈ other.lines, line.number ≠ again.number
  have symmetric : Std.Symm Apart :=
    ⟨fun _ _ apart again inSecond line inFirst same => apart line inFirst again inSecond same.symm⟩
  have apart : entries.Pairwise Apart :=
    ascending.2.imp fun less line inFirst again inSecond =>
      Nat.ne_of_lt (less line inFirst again inSecond)
  exact apart.forall first second different line inFirst again inSecond number

/-- What follows a line by itself is read on from the level that the line leads to. -/
theorem Entries.behind (grouped : Entries reads depth lines (front ++ .single line :: rest) final) :
    ∃ depth lines, reads (.outside depth) line ∧
      Entries reads ((Level.outside depth).next line.shape).depth lines rest final := by
  induction front generalizing depth lines with
  | nil =>
    cases grouped with
    | single read _ _ later => exact ⟨_, _, read, later⟩
  | cons entry front ih =>
    rw [cons_append] at grouped
    generalize whole : front ++ .single line :: rest = behind at grouped
    cases grouped with
    | single _ _ _ later | inline _ _ later | closed _ _ _ _ _ later => exact ih (whole ▸ later)
    | unfinished => simp at whole

variable (readAt : ReadsAt properties reads)
include readAt

/-- Up to the closing brace of a block nothing is further out than its children. -/
theorem Entries.le_depth_cut (grouped : Entries reads depth lines entries final) {base : Nat}
    (above : base ≤ depth) :
    ∀ entry ∈ (Entry.cutAtClose base entries).1, base ≤ entry.opening.depth := by
  induction grouped with
  | nil => exact forall_mem_nil _
  | @single depth line lines entries final read noOpen noInline later ih =>
    have at_ : line.depth = depth := (readAt _ _ read).depth
    cases closes : (Entry.single line).closing? base with
    | some close =>
      simp only [Entry.cutAtClose, closes]
      exact forall_mem_nil _
    | none =>
      have next : base ≤ ((Level.outside depth).next line.shape).depth := by
        cases shape : line.shape with
        | blockClose =>
          have other : depth ≠ base := by
            intro same
            rw [Entry.closing?, if_pos ⟨shape, at_.trans same⟩] at closes
            cases closes
          exact Nat.le_sub_one_of_lt (Nat.lt_of_le_of_ne above other.symm)
        | blockOpen key name => exact Nat.le_succ_of_le above
        | _ => exact above
      rw [Entry.cutAtClose_cons_none closes]
      exact forall_mem_cons.mpr ⟨above.trans_eq at_.symm, ih next⟩
  | @inline depth line _ _ _ _ _ read _ _ ih | @closed _ opening _ _ _ _ _ _ _ read _ _ _ _ _ ih =>
    rw [Entry.cutAtClose_cons_none rfl]
    refine forall_mem_cons.mpr ⟨?_, ih above⟩
    exact above.trans_eq (readAt _ _ read).depth.symm
  | unfinished read _ _ =>
    rw [Entry.cutAtClose_cons_none rfl]
    refine forall_mem_cons.mpr ⟨?_, forall_mem_nil _⟩
    exact above.trans_eq (readAt _ _ read).depth.symm

/-- A header does not stand before another one with the same segment as a child. -/
theorem Entries.not_lt_of_child (grouped : Entries reads depth lines entries final)
    (ascending : Ascending lines) {front' rest' : List Entry} {header' : Line}
    {segment : Segment} (whole : entries = front ++ .single header :: rest)
    (whole' : entries = front' ++ .single header' :: rest') (opens : header.shape.opensBlock = true)
    (inside : .grouped segment ∈ (Entry.cutAtClose (header.depth + 1) rest).1)
    (inside' : .grouped segment ∈ rest') (child : segment.depth = header.depth + 1)
    (child' : segment.depth = header'.depth + 1) : ¬ header.number < header'.number := by
  intro less
  have openings : Ascending (entries.map Entry.opening) :=
    ascending.sublist grouped.openings_sublist
  have behind : header'.number < segment.opening.number := by
    rw [whole', map_append, map_cons] at openings
    exact openings.around.2 _ (mem_map_of_mem inside')
  -- The second header follows the first and precedes the segment, so it is inside the block.
  have within : .single header' ∈ (Entry.cutAtClose (header.depth + 1) rest).1 := by
    have member : .single header' ∈ front ++ .single header :: rest := by
      rw [← whole, whole']
      simp
    rw [whole, Ascending, map_append, map_cons, pairwise_append, pairwise_cons] at openings
    obtain ⟨-, ⟨-, ordered⟩, before⟩ := openings
    rcases mem_append.mp member with inFront | later
    · have earlier : header'.number < header.number :=
        before _ (mem_map_of_mem inFront) header mem_cons_self
      omega
    rcases mem_cons.mp later with same | inRest
    · cases same
      omega
    rw [(Entry.cutAtClose_parts (header.depth + 1) rest).1] at inRest ordered
    rcases mem_append.mp inRest with inCut | beyond
    · exact inCut
    · rw [map_append, pairwise_append] at ordered
      have past : segment.opening.number < header'.number :=
        ordered.2.2 _ (mem_map_of_mem inside) _ (mem_map_of_mem beyond)
      omega
  rw [whole] at grouped
  obtain ⟨outer, _, read, later⟩ := grouped.behind
  have above : header.depth + 1 ≤ ((Level.outside outer).next header.shape).depth := by
    rw [(readAt _ _ read).depth]
    cases shape : header.shape with
    | blockOpen key name => exact Nat.le_refl _
    | _ =>
      rw [shape] at opens
      cases opens
  have deep : header.depth + 1 ≤ header'.depth := later.le_depth_cut readAt above _ within
  omega

end Owners

/-- A property of the block of a header on a line has another value, and nothing else changes. -/
def Revalued (start : Nat) (key value written : Text) (place : Nat)
    (property other : Text × Text) : Prop :=
  if place = start ∧ property.1 = key then property = (key, value) ∧ other = (key, written)
  else other = property

section Values

variable {properties : List Text} {first second : Text} {rewrite : Line → Line}
  {start number : Nat} {key : Text} {segment : Segment}

theorem Entry.map_eq_self (same : ∀ line ∈ entry.lines, rewrite line = line) :
    entry.map rewrite = entry := by
  cases entry with
  | single line => exact congrArg single (same line mem_cons_self)
  | grouped segment => exact congrArg grouped (Segment.map_eq_self same)

/-- The first occurrence of a key with another value. -/
theorem Keyed.forall₂_revalued {earlier later : List (Text × Text)} (value written : Text)
    (absent : ∀ property ∈ earlier, property.1 ≠ key) :
    Forall₂ (Revalued start key value written start)
      (ofOccurrences (earlier ++ (key, value) :: later))
      (ofOccurrences (earlier ++ (key, written) :: later)) := by
  have split (value : Text) : ofOccurrences (earlier ++ (key, value) :: later) =
      ofOccurrences earlier ++ (key, value) ::
        ((ofOccurrences later).filter fun entry => entry.1 ≠ key).filter fun entry =>
          entry.1 ∉ earlier.map Prod.fst := by
    rw [ofOccurrences_append, ofOccurrences, filter_cons_of_pos]
    rw [decide_eq_true_iff]
    intro member
    obtain ⟨property, isEarlier, same⟩ := mem_map.mp member
    exact absent property isEarlier same
  have same {properties : List (Text × Text)}
      (other : ∀ property ∈ properties, property.1 ≠ key) :
      Forall₂ (Revalued start key value written start) properties properties := by
    refine forall₂_same.mpr fun property member => ?_
    rw [Revalued, if_neg fun both => other property member both.2]
  rw [split, split]
  apply rel_append (same _)
  · apply Forall₂.cons
    · rw [Revalued, if_pos ⟨rfl, rfl⟩]
      exact ⟨rfl, rfl⟩
    · apply same
      intro property member
      obtain ⟨inLater, -⟩ := mem_filter.mp member
      exact of_decide_eq_true (mem_filter.mp inLater).2
  · exact fun property member => absent property ((sublist_ofOccurrences _).subset member)

section Held

variable {front rest earlier later : List Entry} {header : Line}
  (held : (Lexed.ofText properties first).Holds start key segment front header rest earlier later)
  (holds : number ∈ segment.lines.map Line.number)
  (only : ∀ line : Line, line.number ≠ number → rewrite line = line)

include held holds only in
/-- No other entry than the segment changes. -/
theorem Lexed.Holds.map_entry (member : entry ∈ Entry.group (ofText properties first).lines)
    (different : entry ≠ .grouped segment) : entry.map rewrite = entry := by
  have grouped := Run.entries .refl (run_ofText properties first)
  apply Entry.map_eq_self
  intro line inEntry
  apply only
  intro isNumber
  obtain ⟨touched, isTouched, sameNumber⟩ := mem_map.mp holds
  exact different (grouped.eq_of_number (ascending_ofText properties first) member
    held.mem_group inEntry isTouched (isNumber.trans sameNumber.symm))

include held in
/-- The segment is one entry of its block. -/
theorem Lexed.Holds.notMem : .grouped segment ∉ earlier ∧ .grouped segment ∉ later := by
  have openings := ascending_openings properties first
  have ordered : Ascending ((earlier ++ .grouped segment :: later).map Entry.opening) := by
    rw [held.whole, (Entry.cutAtClose_parts (header.depth + 1) rest).1, held.inside] at openings
    refine Pairwise.sublist (Sublist.map _ ?_) openings
    exact (sublist_append_left _ _).trans
      ((sublist_cons_self _ _).trans (sublist_append_right _ _))
  rw [map_append, map_cons] at ordered
  constructor
  · exact fun member => Nat.lt_irrefl _ (ordered.around.1 _ (mem_map_of_mem member))
  · exact fun member => Nat.lt_irrefl _ (ordered.around.2 _ (mem_map_of_mem member))

variable (rewrites : Line.Rewrites rewrite)
include rewrites held holds only

/-- In the block of the segment one occurrence of a property gets another value. -/
theorem Lexed.Holds.properties_map :
    ((earlier ++ .grouped segment :: later).map (Entry.map rewrite)).filterMap
        (Entry.property? (header.depth + 1)) =
      earlier.filterMap (Entry.property? (header.depth + 1)) ++
        (key, (segment.map rewrite).text) ::
          later.filterMap (Entry.property? (header.depth + 1)) := by
  have unchanged {part : List Entry} (within : part ⊆ earlier ++ .grouped segment :: later)
      (without : .grouped segment ∉ part) : part.map (Entry.map rewrite) = part := by
    refine (map_congr_left fun entry member => ?_).trans (map_id _)
    refine held.map_entry holds only ?_ fun is => without (is ▸ member)
    rw [held.whole]
    refine mem_append_right _ (mem_cons_of_mem _ ?_)
    apply Entry.cutAtClose_subset (header.depth + 1)
    rw [held.inside]
    exact within member
  have value : (Entry.grouped (segment.map rewrite)).property? (header.depth + 1) =
      some (key, (segment.map rewrite).text) := by
    have depth : (segment.map rewrite).depth = segment.depth := rewrites.depth _
    rw [Entry.property?, if_pos (depth.trans held.depth)]
    exact congrArg (fun property => some (property, _)) held.property
  rw [map_append, map_cons, unchanged (subset_append_left _ _) held.notMem.1,
    unchanged (subset_append_of_subset_right _ (subset_cons_self _ _)) held.notMem.2,
    filterMap_append, Entry.map, filterMap_cons_some value]

/-- In other blocks no property changes, since the segment is a child of one block only. -/
theorem Lexed.Holds.properties_elsewhere {front' rest' : List Entry} {header' : Line}
    (whole : Entry.group (ofText properties first).lines = front' ++ .single header' :: rest')
    (opens : header'.shape.opensBlock = true) (elsewhere : header'.number ≠ start) :
    ((Entry.cutAtClose (header'.depth + 1) rest').1.map (Entry.map rewrite)).filterMap
        (Entry.property? (header'.depth + 1)) =
      (Entry.cutAtClose (header'.depth + 1) rest').1.filterMap
        (Entry.property? (header'.depth + 1)) := by
  have grouped := Run.entries .refl (run_ofText properties first)
  have ascending := ascending_ofText properties first
  rw [filterMap_map]
  refine filterMap_congr fun entry member => ?_
  have inRest := Entry.cutAtClose_subset (header'.depth + 1) rest' member
  rw [Function.comp]
  by_cases is : entry = .grouped segment
  · subst is
    have inCut : .grouped segment ∈ (Entry.cutAtClose (header.depth + 1) rest).1 := by
      rw [held.inside]
      simp
    have notChild : segment.depth ≠ header'.depth + 1 := by
      intro child
      have notLess := grouped.not_lt_of_child .refl ascending held.whole whole
        held.opens inCut inRest held.depth child
      have notMore := grouped.not_lt_of_child .refl ascending whole held.whole
        opens member held.mem child held.depth
      rw [held.number] at notLess notMore
      omega
    have depth : (segment.map rewrite).depth = segment.depth := rewrites.depth _
    rw [Entry.map, Entry.property?, Entry.property?, if_neg notChild,
      if_neg (depth.trans_ne notChild)]
  · rw [held.map_entry holds only ?_ is]
    rw [whole]
    exact mem_append_right _ (mem_cons_of_mem _ inRest)

end Held

/-- If only a line of a segment changes, so does only the property whose value it is. -/
theorem Document.keepsValues_segment (rewrites : Line.Rewrites rewrite)
    (lines : (Lexed.ofText properties second).lines =
      (Lexed.ofText properties first).lines.map rewrite)
    (found : (Lexed.ofText properties first).segment? start key = some segment)
    (holds : number ∈ segment.lines.map Line.number)
    (only : ∀ line : Line, line.number ≠ number → rewrite line = line) :
    KeepsValues (Revalued start key segment.text (segment.map rewrite).text)
      (ofText properties first).nodes (ofText properties second).nodes := by
  intro node inFirst other inSecond sameStart
  obtain ⟨front, header, rest, earlier, later, held⟩ := Lexed.exists_of_segment? found
  rcases properties_rewrite rewrites lines inFirst inSecond sameStart with
    ⟨none_, none'⟩ | ⟨front', header', rest', _, whole, opens, start', rfl, here, there⟩
  · rw [none_, none']
    exact .nil
  rw [here, there]
  by_cases place : node.startLine = start
  · have openings := Lexed.ascending_openings properties first
    rw [held.whole] at openings
    obtain ⟨-, sameHeader, rfl⟩ := openings.eq_of_split (held.whole.symm.trans whole)
      (start'.trans (place.trans held.number.symm))
    cases sameHeader
    have value : (Entry.grouped segment).property? (header.depth + 1) =
        some (key, segment.text) := by
      rw [Entry.property?, if_pos held.depth, held.property]
    rw [place, held.inside, held.properties_map holds only rewrites, filterMap_append,
      filterMap_cons_some value]
    apply Keyed.forall₂_revalued
    intro property member
    obtain ⟨entry, isEarlier, isProperty⟩ := mem_filterMap.mp member
    exact held.first entry isEarlier property isProperty
  · rw [held.properties_elsewhere holds only rewrites whole opens (start' ▸ place)]
    refine forall₂_same.mpr fun property _ => ?_
    rw [Revalued, if_neg fun both => place both.1]

/-- The segment of a property is where its value is read from. -/
theorem Document.keepsValues_self
    (found : (Lexed.ofText properties first).segment? start key = some segment) :
    KeepsValues (Revalued start key segment.text segment.text)
      (ofText properties first).nodes (ofText properties first).nodes := by
  have kept := keepsValues_segment Line.rewrites_id (map_id _).symm found
    mem_cons_self fun _ _ => rfl
  rwa [show segment.map id = segment from Segment.map_eq_self fun _ _ => rfl] at kept

end Values

end LookML
