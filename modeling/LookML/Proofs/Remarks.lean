import LookML.Proofs.Truncation

/-!
# Comments and the fields they stand at

The comments that wait while a declaration is read are those of the run of comments that ends the
lines read so far, less the section markers.  So a field takes the comments directly above it.
When the closing brace is read, the comments behind the last field and behind all other content
leave the content: the content that stays does not end with one of them.
-/

namespace LookML

open Text List

variable {lines : List Line} {level : Level}

/-- Lines that end with a run of comments, of which some are the ones that are no section
markers. -/
def EndInRemarks (lines remarks : List Line) : Prop :=
  ∃ above run, lines = above ++ run ∧ (∀ line ∈ run, line.shape = .comment) ∧
    (∀ line ∈ above.getLast?, line.shape ≠ .comment) ∧
    remarks = run.filter fun line => !isMarker line.text

/-- A field whose comments are the run of comments directly above its header. -/
def Field.TakesRemarks (field : Field) (lines : List Line) : Prop :=
  ∃ above below, lines = above ++ field.opening :: below ∧ EndInRemarks above field.comments

/-- A comment of a declaration behind its fields and its other content. -/
structure Declaration.IsTrailing (declaration : Declaration) (line : Line) : Prop where
  comment : line.shape = .comment
  plain : isMarker line.text = false
  child : line.depth = 1
  inside : declaration.startLine < line.number
  above : ∀ footer ∈ declaration.endLine, line.number < footer
  behindFields : ∀ last ∈ declaration.fields.getLast?, last.lastLine < line.number
  behindContent : ∀ other ∈ declaration.content, other.shape ≠ .blank → other.shape ≠ .comment →
    other.number < line.number

/-- How a declaration of a text takes its comments. -/
structure Declaration.Remarked (declaration : Declaration) (lines : List Line) : Prop where
  /-- A field has the comments directly above its header. -/
  fields : ∀ field ∈ declaration.fields, field.TakesRemarks lines
  /-- The comments behind everything else are the trailing ones, and none of them is left in the
  content. -/
  trailing : declaration.footer.isSome → declaration.fields ≠ [] → ∀ line, line.shape = .comment →
    (line ∈ declaration.trailing ↔ line ∈ lines ∧ declaration.IsTrailing line) ∧
      (declaration.IsTrailing line → line ∉ declaration.content)

namespace EndInRemarks

variable {remarks : List Line} {line : Line}

theorem of_other (other : line.shape ≠ .comment) : EndInRemarks (lines ++ [line]) [] :=
  ⟨lines ++ [line], [], by simp, by simp, by simpa using other, rfl⟩

theorem snoc (ends : EndInRemarks lines remarks) (comment : line.shape = .comment) :
    EndInRemarks (lines ++ [line]) (remarks ++ [line].filter fun line => !isMarker line.text) := by
  obtain ⟨above, run, rfl, comments, begins, rfl⟩ := ends
  refine ⟨above, run ++ [line], append_assoc .., ?_, begins, by rw [filter_append]⟩
  exact forall_mem_append.mpr ⟨comments, by simpa using comment⟩

end EndInRemarks

theorem Field.TakesRemarks.append {field : Field}
    (takes : field.TakesRemarks lines) (more : List Line) : field.TakesRemarks (lines ++ more) := by
  obtain ⟨above, below, rfl, remarks⟩ := takes
  exact ⟨above, below ++ more, by simp, remarks⟩

namespace OpenDeclaration

variable {declaration : OpenDeclaration} {seen : List Line} {line : Line}

/-- An open declaration whose fields follow each other, and so does its content. -/
structure Ordered (declaration : OpenDeclaration) (lines : List Line) : Prop where
  fields : (declaration.fields.flatMap Field.allLines ++ declaration.waiting ++
    declaration.field.toList.flatMap OpenField.allLines).Sublist lines
  content : (declaration.content ++ declaration.waiting).Sublist lines

/-- An open declaration that has taken the comments among the lines seen so far.  Those that wait
are known where the next line is one of its direct children. -/
structure Attends (declaration : OpenDeclaration) (seen : List Line) (depth : Nat) : Prop extends
    declaration.Ordered seen where
  waiting : declaration.field = none → depth = declaration.childDepth →
    EndInRemarks seen declaration.waiting
  complete : ∀ field ∈ declaration.fields, field.TakesRemarks seen
  opened : ∀ field ∈ declaration.field, declaration.waiting = [] ∧
    ∃ above, seen = above ++ field.opening :: field.inner ∧ EndInRemarks above field.comments

theorem Attends.step {more : OpenDeclaration}
    (attends : declaration.Attends seen level.depth) (depth : line.depth = level.depth)
    (step : Step declaration line (.inl more)) :
    more.Attends (seen ++ [line]) (level.next line.shape).depth := by
  have complete : ∀ field ∈ declaration.fields, field.TakesRemarks (seen ++ [line]) :=
    fun field member => (attends.complete field member).append [line]
  have taken := attends.fields.append (Sublist.refl [line])
  have kept := attends.content.append (Sublist.refl [line])
  have behind : seen.Sublist (seen ++ [line]) := sublist_append_left _ _
  cases step with
  | @endsField field isOpen close _ =>
    obtain ⟨noneWaits, above, whole, remarks⟩ := attends.opened field isOpen
    exact
      { fields := by simpa [isOpen, noneWaits, Field.allLines, Field.lines, OpenField.allLines,
          OpenField.close] using taken
        content := attends.content.trans behind
        waiting := by
          intro _ _
          rw [noneWaits]
          exact .of_other (by simp [close])
        complete := forall_mem_snoc.mpr ⟨complete,
          above, field.inner ++ [line], by simp [whole, OpenField.close], remarks⟩
        opened := by simp }
  | @inField field isOpen goesOn =>
    obtain ⟨noneWaits, above, whole, remarks⟩ := attends.opened field isOpen
    exact
      { fields := by simpa [isOpen, OpenField.allLines] using taken
        content := attends.content.trans behind
        waiting := by simp
        complete
        opened := by
          rintro current ⟨⟩
          exact ⟨noneWaits, above, by simp [whole], remarks⟩ }
  | kept noField stays =>
    exact
      { fields := by
          refine Sublist.trans ?_ (attends.fields.trans behind)
          simp [keep, noField]
        content := by simpa [keep] using kept
        waiting := by
          intro _ child
          refine .of_other fun comment => ?_
          rw [comment] at child
          exact (stays (depth.trans child)).2.1 comment
        complete
        opened := by simp [keep, noField] }
  | skipped noField child comment marker =>
    exact
      { fields := attends.fields.trans behind
        content := attends.content.trans behind
        waiting := by
          intro _ _
          simpa [marker] using (attends.waiting noField (depth.symm.trans child)).snoc comment
        complete
        opened := by simp [noField] }
  | waits noField child comment plain =>
    exact
      { fields := by simpa [noField] using taken
        content := by simpa using kept
        waiting := by
          intro _ _
          simpa [plain] using (attends.waiting noField (depth.symm.trans child)).snoc comment
        complete
        opened := by simp [noField] }
  | startsField noField child opensField =>
    exact
      { fields := by simpa [noField, OpenField.allLines] using taken
        content := by
          simpa using ((sublist_append_left _ _).trans attends.content).trans behind
        waiting := by simp
        complete
        opened := by
          rintro current ⟨⟩
          exact ⟨rfl, seen, rfl, attends.waiting noField (depth.symm.trans child)⟩ }

/-- The closing brace cuts lines behind the last field off the content, and leaves no comment that
only such lines follow. -/
theorem cutTail_spec {last : Field} (isLast : declaration.fields.getLast? = some last) :
    (∃ blanks, declaration.content = declaration.cutTail.1 ++ (blanks ++ declaration.cutTail.2)) ∧
      (∀ line ∈ declaration.cutTail.2, last.lastLine < line.number) ∧
      ∀ front line back, declaration.cutTail.1 = front ++ line :: back → line.shape = .comment →
        ∃ other ∈ line :: back, declaration.isTailLine last.lastLine other = false := by
  let isTail := declaration.isTailLine last.lastLine
  let tail := (declaration.content.reverse.takeWhile isTail).reverse
  have whole : declaration.content =
      (declaration.content.reverse.dropWhile isTail).reverse ++ tail :=
    (rdropWhile_append_rtakeWhile ..).symm
  have tailLines : ∀ line ∈ tail, isTail line = true := fun line member =>
    mem_takeWhile_imp (mem_reverse.mp member)
  unfold cutTail
  simp only [isLast]
  split
  · refine ⟨⟨tail.takeWhile fun line => line.shape = .blank, ?_⟩, ?_, ?_⟩
    · rw [takeWhile_append_dropWhile]
      exact whole
    · intro line member
      have inTail := tailLines line ((dropWhile_suffix _).subset member)
      simp only [isTail, isTailLine, Bool.and_eq_true, decide_eq_true_eq] at inTail
      exact inTail.1.1
    · intro front line back split _
      have notTail := head?_dropWhile_not isTail declaration.content.reverse
      have occupied := cons_ne_nil line back
      rw [reverse_eq_iff.mp split, ← dropLast_append_getLast occupied,
        ← append_assoc, reverse_concat] at notTail
      exact ⟨_, getLast_mem occupied, by simpa using notTail⟩
  · rename_i noComment
    refine ⟨⟨[], by simp⟩, by simp, ?_⟩
    intro front line back split comment
    dsimp only at split
    by_contra none_
    simp only [not_exists, not_and, Bool.not_eq_false] at none_
    refine noComment (any_eq_true.mpr ⟨line, ?_, by simpa using comment⟩)
    rw [split, reverse_append, takeWhile_append_of_pos]
    · simp
    · exact fun other member => none_ other (mem_reverse.mp member)

end OpenDeclaration

/-- A declaration that has taken the comments among some lines. -/
structure Declaration.Attends (declaration : Declaration) (lines : List Line) : Prop where
  fields : ∀ field ∈ declaration.fields, field.TakesRemarks lines
  closed : declaration.fields ≠ [] → ∀ footer ∈ declaration.footer,
    ∃ build : OpenDeclaration, build.Ordered lines ∧ declaration = build.close footer

theorem Declaration.Attends.append {declaration : Declaration}
    (attends : declaration.Attends lines) (more : List Line) :
    declaration.Attends (lines ++ more) where
  fields := fun field member => (attends.fields field member).append more
  closed := by
    intro occupied footer isFooter
    obtain ⟨build, ordered, same⟩ := attends.closed occupied footer isFooter
    have behind := sublist_append_left lines more
    exact ⟨build, ⟨ordered.fields.trans behind, ordered.content.trans behind⟩, same⟩

namespace Outline

/-- An outline whose declarations have taken the comments among the lines seen so far. -/
structure Attends (outline : Outline) (seen : List Line) (depth : Nat) : Prop where
  items : ∀ declaration, .declaration declaration ∈ outline.items → declaration.Attends seen
  declaration : ∀ declaration ∈ outline.declaration, declaration.Attends seen depth

variable {outline : Outline} {seen : List Line} {line : Line} {depth : Nat}

theorem mem_settled {declaration : Declaration} :
    .declaration declaration ∈ outline.settled ↔ .declaration declaration ∈ outline.items := by
  unfold settled
  split <;> simp

theorem Attends.add (attends : outline.Attends seen level.depth) (read : line.depth = level.depth) :
    (outline.add line).Attends (seen ++ [line]) (level.next line.shape).depth := by
  have step := outline.step_add line
  generalize outline.add line = next at step
  have items : ∀ declaration, .declaration declaration ∈ outline.items →
      declaration.Attends (seen ++ [line]) :=
    fun declaration member => (attends.items declaration member).append [line]
  cases step with
  | @within declaration more open_ added =>
    refine ⟨items, ?_⟩
    rintro candidate ⟨⟩
    exact (attends.declaration declaration open_).step read (added ▸ declaration.step_add line)
  | @completes declaration complete open_ added =>
    have before := attends.declaration declaration open_
    have ends : OpenDeclaration.Step declaration line (.inr complete) :=
      added ▸ declaration.step_add line
    refine ⟨fun candidate member => ?_, by simp⟩
    rcases mem_append.mp member with old | new
    · exact items candidate old
    cases mem_singleton.mp new
    cases ends with
    | ends noField _ _ =>
      have behind := sublist_append_left seen [line]
      refine ⟨fun field member => (before.complete field member).append [line], ?_⟩
      rintro - footer ⟨⟩
      exact ⟨declaration, ⟨before.fields.trans behind, before.content.trans behind⟩, rfl⟩
  | @opens key name noDeclaration top shape =>
    refine ⟨fun candidate member => items candidate (mem_settled.mp member), ?_⟩
    rintro candidate ⟨⟩
    exact
      { fields := by simp
        content := by simp
        waiting := fun _ _ => .of_other (by simp [shape])
        complete := by simp
        opened := by simp }
  | @inline key name value noDeclaration top shape =>
    refine ⟨fun candidate member => ?_, by simp⟩
    rcases mem_append.mp member with old | new
    · exact items candidate (mem_settled.mp old)
    · cases mem_singleton.mp new
      exact ⟨by simp, fun occupied => absurd rfl occupied⟩
  | loose noDeclaration plain => exact ⟨items, by simp [noDeclaration]⟩

theorem Attends.foldl {properties : List Text} {final : Level}
    (run : Run (Line.ReadAt properties) level lines final)
    (attends : outline.Attends seen level.depth) :
    (lines.foldl Outline.add outline).Attends (seen ++ lines) final.depth := by
  induction run generalizing outline seen with
  | nil => simpa using attends
  | cons read _ ih => simpa using ih (attends.add read.depth)

theorem Attends.finish (attends : outline.Attends seen depth) {declaration : Declaration}
    (member : .declaration declaration ∈ outline.finish) : declaration.Attends seen := by
  unfold Outline.finish at member
  cases open_ : outline.declaration with
  | none =>
    rw [open_] at member
    exact attends.items declaration (mem_settled.mp member)
  | some unfinished =>
    have before := attends.declaration unfinished open_
    simp only [open_] at member
    rcases mem_append.mp member with old | new
    · exact attends.items declaration old
    cases mem_singleton.mp new
    refine ⟨forall_mem_append.mpr ⟨before.complete, forall_mem_map.mpr fun current isOpen => ?_⟩,
      by simp [OpenDeclaration.abandon]⟩
    obtain ⟨-, above, whole, remarks⟩ := before.opened current (Option.mem_toList.mp isOpen)
    exact ⟨above, current.inner, whole, remarks⟩

end Outline

theorem Ascending.le_last (ascending : Ascending lines) {last : Line}
    (isLast : lines.getLast? = some last) : ∀ line ∈ lines, line.number ≤ last.number := by
  obtain ⟨front, rfl⟩ := getLast?_eq_some_iff.mp isLast
  exact forall_mem_snoc.mpr ⟨fun line before => Nat.le_of_lt (ascending.around.1 line before),
    Nat.le_refl _⟩

/-- The lines of fields end with the last line of the last field. -/
theorem Field.exists_last {fields : List Field} {last : Field}
    (isLast : fields.getLast? = some last) :
    ∃ line, (fields.flatMap allLines).getLast? = some line ∧ last.lastLine = line.number := by
  obtain ⟨front, rfl⟩ := getLast?_eq_some_iff.mp isLast
  have occupied : last.lines ≠ [] := by simp [lines]
  obtain ⟨line, ends⟩ := Option.isSome_iff_exists.mp (getLast?_isSome.mpr occupied)
  refine ⟨line, ?_, by rw [lastLine, ends]; rfl⟩
  simp [allLines, getLast?_append, ends]

namespace OpenDeclaration

variable {line : Line}

variable {properties : List Text} {stretch : List Line} {build : OpenDeclaration} {footer : Line}
  {last : Field}

theorem Ordered.close (ordered : build.Ordered lines) (isLast : build.fields.getLast? = some last)
    (footer : Line) :
    ((build.close footer).content ++ (build.close footer).trailing).Sublist lines := by
  obtain ⟨⟨blanks, whole⟩, -, -⟩ := cutTail_spec isLast
  refine Sublist.trans ?_ ordered.content
  rw [whole, append_assoc, append_assoc]
  exact (Sublist.refl _).append (sublist_append_right _ _)

variable (ascending : Ascending lines) (ordered : build.Ordered lines)
  (isLast : build.fields.getLast? = some last)
  (closed : (build.close footer).Closed (Line.ReadAt properties))
  (holds : (build.close footer).Holds stretch) (within : stretch <:+: lines)
include ascending ordered isLast closed holds within

theorem isTrailing_of_mem (member : line ∈ (build.close footer).trailing)
    (comment : line.shape = .comment) : (build.close footer).IsTrailing line := by
  obtain ⟨start, stop⟩ := holds.around (ascending.sublist within.sublist)
    (holds.trailing.subset member)
  have remark : line.IsRemark (Line.ReadAt properties) := by
    rcases closed.trailing line member with remark | ⟨-, blank⟩
    · exact remark
    · rw [comment] at blank
      cases blank
  have order : Ascending ((build.close footer).content ++ (build.close footer).trailing) :=
    ascending.sublist (ordered.close isLast footer)
  exact
    { comment
      plain := remark.plain
      child := remark.read.depth
      inside := by
        obtain ⟨key, name, shape⟩ := closed.opens
        refine start.resolve_left ?_
        rintro rfl
        simp [shape] at comment
      above := by
        rintro - ⟨⟩
        obtain ⟨other, isFooter, -, shape⟩ := closed.footer
        cases isFooter
        refine (stop _ rfl).resolve_left ?_
        rintro rfl
        simp [shape] at comment
      behindFields := by
        intro field isField
        cases isLast.symm.trans isField
        rcases mem_append.mp member with cut | waiting
        · exact (cutTail_spec isLast).2.1 line cut
        · obtain ⟨final, ends, lastLine⟩ := Field.exists_last isLast
          have fieldOrder := ascending.sublist ((sublist_append_left _ _).trans ordered.fields)
          rw [lastLine]
          exact (pairwise_append.mp fieldOrder).2.2 final (mem_of_getLast? ends) line
            waiting
      behindContent := fun other inContent _ _ =>
        (pairwise_append.mp order).2.2 other inContent line member }

omit ascending ordered holds within in
/-- No comment behind the fields and the other content is left in the content: only comments and
blank lines follow it there, which do not change the depth, so it is cut off. -/
theorem notMem_content (sorted : Ascending (build.close footer).content)
    (trailing : (build.close footer).IsTrailing line) : line ∉ (build.close footer).content := by
  intro member
  obtain ⟨front, back, split⟩ := append_of_mem member
  have behind : ∀ other ∈ back, line.number < other.number := by
    rw [split] at sorted
    exact sorted.around.2
  have quiet : ∀ other ∈ line :: back, other.shape = .comment ∨ other.shape = .blank := by
    refine forall_mem_cons.mpr ⟨.inl trailing.comment, fun other later => ?_⟩
    by_contra solid
    rw [not_or] at solid
    have above := trailing.behindContent other (by rw [split]; simp [later]) solid.2 solid.1
    exact Nat.lt_asymm above (behind other later)
  obtain ⟨other, inRest, notTail⟩ :=
    (cutTail_spec isLast).2.2 front line back split trailing.comment
  have number : last.lastLine < other.number := by
    refine Nat.lt_of_lt_of_le (trailing.behindFields last isLast) ?_
    rcases mem_cons.mp inRest with rfl | later
    · exact Nat.le_refl _
    · exact Nat.le_of_lt (behind other later)
  have depth : other.depth = 1 := by
    obtain ⟨before, after, cut⟩ := append_of_mem inRest
    have run := closed.run
    rw [split] at run
    obtain ⟨middle, -, rest⟩ := run.split
    have start : middle.depth = 1 := by
      cases rest with
      | cons read _ => exact read.depth.symm.trans trailing.child
    rw [cut] at rest quiet
    obtain ⟨level, steady, here⟩ := rest.split
    have same := steady.eq_of_steady fun earlier inside level => by
      rcases quiet earlier (mem_append_left _ inside) with shape | shape <;> rw [shape] <;> rfl
    cases here with
    | cons read _ => rw [read.depth, same, start]
  have child : build.childDepth = 1 := congrArg (· + 1) closed.readHeader.depth
  simp only [isTailLine, number, depth, child, decide_true, Bool.and_self, Bool.true_and,
    Bool.or_eq_false_iff, decide_eq_false_iff_not] at notTail
  exact (quiet other inRest).elim notTail.1 notTail.2

theorem mem_trailing (member : line ∈ lines)
    (trailing : (build.close footer).IsTrailing line) : line ∈ (build.close footer).trailing := by
  have order : Ascending ((build.close footer).content ++ (build.close footer).trailing) :=
    ascending.sublist (ordered.close isLast footer)
  have inStretch : line ∈ stretch := by
    obtain ⟨earlier, later, rfl⟩ := within
    have header : build.header ∈ stretch := by
      obtain ⟨rest, start⟩ := holds.header
      rw [start]
      exact mem_cons_self
    have brace : footer ∈ stretch := by
      obtain ⟨front, finish⟩ := holds.footer footer rfl
      simp [finish]
    obtain ⟨upper, -, lower⟩ := pairwise_append.mp ascending
    rcases mem_append.mp member with before | behind
    · rcases mem_append.mp before with above | here
      · have early := (pairwise_append.mp upper).2.2 line above build.header header
        exact absurd trailing.inside (Nat.lt_asymm early)
      · exact here
    · have late := lower footer (mem_append_right _ brace) line behind
      exact absurd (trailing.above footer.number rfl) (Nat.lt_asymm late)
  obtain ⟨omitted, perm, omissible⟩ := holds.perm
  rcases mem_append.mp (perm.mem_iff.mpr inStretch) with held | left
  · obtain ⟨key, name, shape⟩ := closed.opens
    simp only [Declaration.lines, Declaration.closingLines, shape, mem_append, mem_cons]
      at held
    rcases held with (((rfl | content) | field) | found) | brace
    · exact absurd trailing.inside (Nat.lt_irrefl _)
    · have sorted := order.sublist (sublist_append_left _ _)
      exact absurd content (notMem_content isLast closed sorted trailing)
    · obtain ⟨final, ends, lastLine⟩ := Field.exists_last isLast
      have fieldOrder := ascending.sublist ((sublist_append_left _ _).trans
        ((sublist_append_left _ _).trans ordered.fields))
      have early := Ascending.le_last fieldOrder ends line field
      have late := trailing.behindFields last isLast
      omega
    · exact found
    · cases Option.mem_toList.mp brace
      exact absurd (trailing.above line.number rfl) (Nat.lt_irrefl _)
  · rcases omissible line left with blank | ⟨-, -, mark⟩
    · rw [trailing.comment] at blank
      cases blank
    · rw [trailing.plain] at mark
      cases mark

end OpenDeclaration

/-- A document whose declarations take their comments from some lines. -/
def Document.Remarked (document : Document) (lines : List Line) : Prop :=
  ∀ declaration ∈ document.declarations, declaration.Remarked lines

/-- The fields of a text have the comments directly above them, and the comments behind the last
field and behind all content stand apart. -/
theorem Document.remarked_ofText (properties : List Text) (text : Text) :
    (ofText properties text).Remarked (Lexed.ofText properties text).lines := by
  intro declaration member
  have run := Lexed.run_ofText properties text
  have ascending := Lexed.ascending_ofText properties text
  have inItems := mem_items member
  have attends : declaration.Attends (Lexed.ofText properties text).lines := by
    have start : Outline.Attends {} [] (Level.outside 0).depth := ⟨by simp, by simp⟩
    exact (start.foldl run).finish inItems
  obtain ⟨stretch, within, holds⟩ := exists_stretch .refl run inItems
  refine ⟨attends.fields, fun ends occupied line comment => ?_⟩
  obtain ⟨footer, isFooter⟩ := Option.isSome_iff_exists.mp ends
  have closed : declaration.Closed (Line.ReadAt properties) := by
    obtain ⟨final, ⟨-, inline | closed⟩ | abandoned⟩ :=
      exists_sound .refl run inItems
    · exact absurd (by rw [inline.eq]) occupied
    · exact closed
    · rw [abandoned.footer] at isFooter
      cases isFooter
  obtain ⟨last, isLast⟩ := Option.isSome_iff_exists.mp (getLast?_isSome.mpr occupied)
  obtain ⟨build, ordered, rfl⟩ := attends.closed occupied footer isFooter
  have order := ordered.close isLast footer
  have sorted := ascending.sublist ((sublist_append_left _ _).trans order)
  refine ⟨⟨fun member => ⟨order.subset (mem_append_right _ member), ?_⟩, ?_⟩,
    OpenDeclaration.notMem_content isLast closed sorted⟩
  · exact OpenDeclaration.isTrailing_of_mem ascending ordered isLast closed holds within member
      comment
  · rintro ⟨member, trailing⟩
    exact OpenDeclaration.mem_trailing ascending ordered isLast closed holds within member trailing

end LookML
