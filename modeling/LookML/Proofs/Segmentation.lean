import LookML.Proofs.Placement

/-!
# Segments of the parts of a document

Grouping is done on the lines of a text and again on every list of lines that a document is made
of: loose text, the content of a declaration, the comments after its fields, the comments and the
lines of a field.  Main statement: grouping loses no line of any list, and for these lists it
gives segments as they stand in the text, each with all of its lines, and leaves no line of a
segment by itself.
-/

namespace LookML

open Text List

/-- The lists of lines that a document is made of. -/
def Document.lists (document : Document) : List (List Line) :=
  document.items.flatMap Item.lists

theorem eq_of_mem_flatMap {α β : Type} {items : List α} {f : α → List β}
    (once : (items.flatMap f).Nodup) {a b : α} (first : a ∈ items) (second : b ∈ items) {x : β}
    (inFirst : x ∈ f a) (inSecond : x ∈ f b) : a = b := by
  by_contra different
  have : Std.Symm (Function.onFun List.Disjoint f) :=
    ⟨fun _ _ apart _ first second => apart second first⟩
  exact (nodup_flatMap.mp once).2.forall first second different inFirst inSecond

theorem Item.count_lists_le (item : Item) (line : Line) :
    item.lists.flatten.count line ≤ item.lines.count line := by
  cases item with
  | loose lines => simp [Item.lists, Item.lines]
  | declaration found =>
    have fields : (found.fields.flatMap fun field => [field.comments, field.lines]).flatten =
        found.fields.flatMap Field.allLines := by
      induction found.fields with
      | nil => rfl
      | cons field fields ih => simp [ih, Field.allLines]
    simp only [lists, lines, Declaration.lines, flatten_append, fields, flatten_cons,
      flatten_nil, count_append, count_cons, count_nil, cons_append]
    omega

section Lists

variable {properties : List Text} {reads : Level → Line → Prop} {lexed : Lexed} {final : Level}
  (readAt : ReadsAt properties reads)
  (run : Run reads (.outside 0) lexed.lines final)
include readAt run

/-- The lists of a document hold no line twice. -/
theorem Document.nodup_lists (ascending : Ascending lexed.lines) :
    (ofLexed lexed).lists.flatten.Nodup := by
  obtain ⟨stretches, whole, held⟩ := exists_stretches readAt run
  obtain ⟨omitted, perm, -⟩ := exists_omitted held
  have once : ((ofLexed lexed).items.flatMap Item.lines ++ omitted).Nodup := by
    rw [perm.nodup_iff, ← whole]
    exact ascending.imp fun before same => by simp [same] at before
  rw [nodup_iff_count_le_one] at once ⊢
  intro line
  refine le_trans ?_ (once line)
  rw [count_append]
  refine le_trans ?_ (Nat.le_add_right _ _)
  unfold lists
  induction (ofLexed lexed).items with
  | nil => simp
  | cons item items ih =>
    rw [flatMap_cons, flatMap_cons, flatten_append, count_append, count_append]
    exact Nat.add_le_add (item.count_lists_le line) ih

theorem Document.list_eq_of_mem (ascending : Ascending lexed.lines) {list other : List Line}
    (known : list ∈ (ofLexed lexed).lists) (isOther : other ∈ (ofLexed lexed).lists) {line : Line}
    (member : line ∈ list) (shared : line ∈ other) : list = other := by
  have once := nodup_lists readAt run ascending
  rw [← flatMap_id] at once
  exact eq_of_mem_flatMap once known isOther member shared

theorem Document.sublist_list {list : List Line} (known : list ∈ (ofLexed lexed).lists) :
    list.Sublist lexed.lines := by
  obtain ⟨item, isItem, isList⟩ := mem_flatMap.mp known
  obtain ⟨stretch, inside, holds⟩ := exists_stretch readAt run isItem
  exact (Item.Holds.sublist holds list isList).trans inside.sublist

/-- Lines of segments that follow one another in the text do so in the list that has one of
them. -/
theorem Document.infix_list (ascending : Ascending lexed.lines) {piece list : List Line}
    (segmental : Segmental piece) (inside : piece <:+: lexed.lines)
    (known : list ∈ (ofLexed lexed).lists) {line : Line} (member : line ∈ piece)
    (shared : line ∈ list) : piece <:+: list := by
  obtain ⟨item, isItem, contains⟩ := exists_contains readAt run segmental inside
  obtain ⟨other, isOther, inOther⟩ : ∃ other ∈ item.lists, piece <:+: other := by
    cases item with
    | loose lines => exact ⟨lines, mem_singleton_self _, contains⟩
    | declaration found =>
      rcases contains with inContent | ⟨field, inFields, inField⟩
      · exact ⟨found.content, mem_cons_self, inContent⟩
      · refine ⟨field.lines, ?_, inField.trans ⟨[field.opening], field.closing.toList, rfl⟩⟩
        exact mem_append_right _ (mem_flatMap.mpr ⟨field, inFields, by simp⟩)
  have isList : other ∈ (ofLexed lexed).lists := mem_flatMap.mpr ⟨item, isItem, isOther⟩
  rw [list_eq_of_mem readAt run ascending known isList shared (inOther.subset member)]
  exact inOther

/-- Every list of a document is a run of its own. -/
theorem Document.exists_run {list : List Line} (known : list ∈ (ofLexed lexed).lists) :
    ∃ depth last, Run reads (.outside depth) list last := by
  obtain ⟨item, isItem, isList⟩ := mem_flatMap.mp known
  obtain ⟨last, sound⟩ := exists_sound readAt run isItem
  cases item with
  | loose lines =>
    cases mem_singleton.mp isList
    exact ⟨0, last, sound.2.1⟩
  | declaration found =>
    simp only [Item.lists, cons_append, nil_append, mem_cons, mem_flatMap, not_mem_nil,
      or_false] at isList
    rcases isList with rfl | rfl | ⟨field, member, rfl | rfl⟩
    · rcases sound with ⟨-, inline | closed⟩ | abandoned
      · rw [inline.eq]
        exact ⟨0, _, .nil _⟩
      · exact ⟨1, _, closed.run⟩
      · obtain ⟨level, run, -⟩ := abandoned.run
        exact ⟨1, level, run⟩
    · rcases sound with ⟨-, inline | closed⟩ | abandoned
      · rw [inline.eq]
        exact ⟨0, _, .nil _⟩
      · exact ⟨1, _, .of_quiet closed.trailing⟩
      · rw [abandoned.trailing]
        exact ⟨0, _, .nil _⟩
    · obtain ⟨_, whole⟩ := Item.Sound.field sound member
      exact ⟨1, _, .of_quiet fun line remark => .inl (whole.remarks line remark)⟩
    · obtain ⟨level, whole⟩ := Item.Sound.field sound member
      exact ⟨1, level, whole.run⟩

/-- A segment of a list of a document is a segment of the text. -/
theorem Document.grouped_of_list (ascending : Ascending lexed.lines) {list : List Line}
    (known : list ∈ (ofLexed lexed).lists) {segment : Segment}
    (member : .grouped segment ∈ Entry.group list) :
    .grouped segment ∈ Entry.group lexed.lines := by
  obtain ⟨depth, last, listRun⟩ := exists_run readAt run known
  have entries := listRun.entries readAt
  have stands := entries.standsIn readAt segment member
  have opening : segment.opening ∈ list := stands.together.subset mem_cons_self
  have sublist := sublist_list readAt run known
  -- The text has a segment that the same line opens, and all of it stands in the list.
  obtain ⟨source, isSource, same⟩ : ∃ source, .grouped source ∈ Entry.group lexed.lines ∧
      source.opening = segment.opening := by
    have inSegment := (stands.shape_cases _ mem_cons_self).1
    rcases (run.entries readAt).mem_cases (sublist.subset opening) with
      alone | ⟨source, isSource, inside⟩
    · simp [(run.entries readAt).inSegment_of_single readAt _ alone] at inSegment
    · refine ⟨source, isSource, ?_⟩
      have cases_ := (((run.entries readAt).standsIn readAt source isSource).shape_cases _ inside).2
      simpa [stands.opening_ne.1, stands.opening_ne.2, eq_comm] using cases_
  have whole := (run.entries readAt).standsIn readAt source isSource
  have inList : source.lines <:+: list :=
    infix_list readAt run ascending ⟨by simp [Segment.lines], fun line member =>
      (whole.shape_cases line member).1⟩ whole.together known mem_cons_self (same ▸ opening)
  have found : .grouped source ∈ Entry.group list := by
    obtain ⟨front, rest, split⟩ := inList
    rw [append_assoc] at split
    rw [← split] at listRun ⊢
    refine whole.mem_group readAt listRun fun open_ => ?_
    -- Nothing follows it in the list, since nothing follows it in the text.
    obtain ⟨above, ends⟩ := whole.unterminated open_
    refine eq_nil_iff_forall_not_mem.mpr fun late inRest => ?_
    have sorted := ascending.sublist sublist
    rw [← split] at sorted sublist
    rw [← ends] at ascending sublist
    have after : ∀ line ∈ source.lines, line.number < late.number := fun line member =>
      (pairwise_append.mp (pairwise_append.mp sorted).2.1).2.2 line member late inRest
    rcases mem_append.mp (sublist.subset (show late ∈ _ by simp [inRest])) with early | inside
    · have before := (pairwise_append.mp ascending).2.2 late early source.opening mem_cons_self
      exact Nat.lt_asymm before (after _ mem_cons_self)
    · exact Nat.lt_irrefl _ (after late inside)
  have once : ((Entry.group list).flatMap Entry.lines).Nodup := by
    rw [Entry.flatMap_lines_group]
    exact (ascending.sublist sublist).imp fun before same => by simp [same] at before
  have equal : Entry.grouped segment = .grouped source :=
    eq_of_mem_flatMap once member found mem_cons_self (same ▸ mem_cons_self)
  rw [equal]
  exact isSource

end Lists

/-- Lines that are grouped into segments of a text, each with all of its lines there, and into
lines that belong to no segment. -/
structure Segmented (list lines : List Line) : Prop where
  segments : ∀ segment, .grouped segment ∈ Entry.group list → segment.StandsIn lines
  singles : ∀ line, .single line ∈ Entry.group list → line.shape.inSegment = false

/-- Grouping keeps every line of a list in its place, and what it gives for the lines of a text
and for the lists of its document are the segments of the text, none of them split. -/
theorem Document.segmented_ofText (properties : List Text) (text : Text) :
    (∀ lines : List Line, (Entry.group lines).flatMap Entry.lines = lines) ∧
      Segmented (Lexed.ofText properties text).lines (Lexed.ofText properties text).lines ∧
      ∀ list ∈ (ofText properties text).lists,
        Segmented list (Lexed.ofText properties text).lines := by
  have run := Lexed.run_ofText properties text
  have ascending := Lexed.ascending_ofText properties text
  have whole := run.entries .refl
  refine ⟨Entry.flatMap_lines_group,
    ⟨whole.standsIn .refl, whole.inSegment_of_single .refl⟩, fun list known => ⟨?_, ?_⟩⟩
  · intro segment member
    exact whole.standsIn .refl segment (grouped_of_list .refl run ascending known member)
  · obtain ⟨depth, last, listRun⟩ := exists_run .refl run known
    exact (listRun.entries .refl).inSegment_of_single .refl

end LookML
