import LookML.Proofs.Atoms
import LookML.Proofs.Fidelity

/-!
# Where segments are placed

The lines of a segment stay together when a document is built: they go to loose text, to the
content of a declaration or into a field.  So the layout of the segment stands in the layout of
the document, in the content of a declaration with its runs of empty lines reduced, and its
atoms are found there.
-/

namespace LookML

open Text Code List Layout

section Lists

variable {α β : Type}

theorem infix_flatMap_of_member {a : α} {items : List α} (member : a ∈ items) (f : α → List β) :
    f a <:+: items.flatMap f := by
  obtain ⟨before, after, rfl⟩ := append_of_mem member
  exact ⟨before.flatMap f, after.flatMap f, by simp⟩

/-- A piece that shares nothing with the end of a list lies before it. -/
theorem infix_of_append {piece front tail : List α} (occupied : piece ≠ [])
    (inside : piece <:+: front ++ tail) (apart : ∀ member ∈ piece, member ∉ tail) :
    piece <:+: front := by
  obtain ⟨before, after, whole⟩ := inside
  rcases append_eq_append_iff.mp whole with ⟨more, rfl, rfl⟩ | ⟨more, split, rfl⟩
  · exact ⟨before, more, rfl⟩
  · rcases eq_nil_or_concat more with rfl | ⟨inner, last, rfl⟩
    · exact ⟨before, [], by simpa using split⟩
    · have ends : last ∈ piece.getLast? := by
        have same := congrArg List.getLast? split
        rw [getLast?_append_of_ne_nil _ occupied] at same
        simp [same]
      exact absurd (by simp) (apart last (mem_of_getLast? ends))

end Lists

/-- Lines of segments, at least one. -/
structure Segmental (piece : List Line) : Prop where
  occupied : piece ≠ []
  inSegment : ∀ line ∈ piece, line.shape.inSegment = true

/-- Lines in a row in a part of a document. -/
def Item.Contains (piece : List Line) : Item → Prop
  | .loose lines => piece <:+: lines
  | .declaration found => piece <:+: found.content ∨ ∃ field ∈ found.fields, piece <:+: field.inner

/-- Lines in a row in an open declaration. -/
def OpenDeclaration.Contains (piece : List Line) (declaration : OpenDeclaration) : Prop :=
  piece <:+: declaration.content ++ declaration.waiting ∨
    (∃ field ∈ declaration.fields, piece <:+: field.inner) ∨
      ∃ field ∈ declaration.field, piece <:+: field.inner

/-- Lines in a row in what becomes of an open declaration. -/
def OpenDeclaration.Passes (piece : List Line) : OpenDeclaration ⊕ Declaration → Prop
  | .inl more => more.Contains piece
  | .inr complete => (Item.declaration complete).Contains piece

/-- Lines in a row in an outline. -/
def Outline.Contains (piece : List Line) (outline : Outline) : Prop :=
  (∃ item ∈ outline.items, item.Contains piece) ∨ piece <:+: outline.loose ∨
    ∃ declaration ∈ outline.declaration, declaration.Contains piece

/-- The lines that were taken in last. -/
def Outline.latest (outline : Outline) : List Line :=
  match outline.declaration with
  | none => outline.loose
  | some declaration =>
    match declaration.field with
    | none => declaration.content ++ declaration.waiting
    | some field => field.inner

section Keeping

variable {piece : List Line} {properties : List Text}
    {reads : Level → Line → Prop} {level final : Level}
  {line : Line} {lines : List Line}

theorem Segmental.apart (segmental : Segmental piece) {tail : List Line}
    (quiet : ∀ line ∈ tail, line.shape = .comment ∨ line.shape = .blank) :
    ∀ line ∈ piece, line ∉ tail := by
  intro line member inTail
  have inside := segmental.inSegment line member
  rcases quiet line inTail with shape | shape
  · rw [shape] at inside
    cases inside
  · rw [shape] at inside
    cases inside

namespace OpenDeclaration

variable {declaration : OpenDeclaration}

/-- The comments that are cut off the content of a declaration are no lines of a segment. -/
theorem Contains.close (contains : declaration.Contains piece) (segmental : Segmental piece)
    (remarks : ∀ line ∈ declaration.waiting, line.shape = .comment)
    (free : declaration.field = none)
    (footer : Line) : (Item.declaration (declaration.close footer)).Contains piece := by
  rcases contains with inContent | inFields | ⟨field, open_, -⟩
  · left
    change piece <:+: declaration.cutTail.1
    have inside := infix_of_append segmental.occupied inContent
      (segmental.apart fun line member => .inl (remarks line member))
    obtain ⟨kept, blanks, tail, whole, cut, -, silent, -⟩ := declaration.exists_cutTail
    rw [whole] at inside
    rw [cut]
    exact infix_of_append segmental.occupied inside
      (segmental.apart fun line member => (silent line member).2)
  · exact .inr inFields
  · rw [free] at open_
    cases open_

theorem Contains.abandon (contains : declaration.Contains piece) :
    (Item.declaration declaration.abandon).Contains piece := by
  rcases contains with inContent | ⟨field, member, inside⟩ | ⟨field, open_, inside⟩
  · exact .inl inContent
  · exact .inr ⟨field, mem_append_left _ member, inside⟩
  · refine .inr ⟨field.close declaration.parent none, mem_append_right _ ?_, inside⟩
    rw [Option.mem_def.mp open_]
    exact mem_singleton_self _

theorem Contains.step (contains : declaration.Contains piece) (segmental : Segmental piece)
    (remarks : ∀ line ∈ declaration.waiting, line.shape = .comment)
    {result : OpenDeclaration ⊕ Declaration}
    (step : Step declaration line result) : Passes piece result := by
  have inFront {front tail : List Line} (inside : piece <:+: front) : piece <:+: front ++ tail :=
    inside.trans (prefix_append front tail).isInfix
  cases step with
  | @endsField field open_ =>
    rcases contains with inContent | ⟨other, member, inside⟩ | ⟨other, same, inside⟩
    · exact .inl inContent
    · exact .inr (.inl ⟨other, mem_append_left _ member, inside⟩)
    · rw [open_] at same
      cases same
      exact .inr (.inl ⟨_, mem_append_right _ (mem_singleton_self _), inside⟩)
  | @inField field open_ =>
    rcases contains with inContent | inFields | ⟨other, same, inside⟩
    · exact .inl inContent
    · exact .inr (.inl inFields)
    · rw [open_] at same
      cases same
      exact .inr (.inr ⟨_, rfl, inFront inside⟩)
  | kept free =>
    rcases contains with inContent | inFields | ⟨other, same, -⟩
    · exact .inl (inFront (inFront inContent))
    · exact .inr (.inl inFields)
    · rw [free] at same
      cases same
  | ends free => exact contains.close segmental remarks free line
  | skipped => exact contains
  | waits =>
    rcases contains with inContent | inRest
    · left
      change piece <:+: declaration.content ++ (declaration.waiting ++ [line])
      rw [← append_assoc]
      exact inFront inContent
    · exact .inr inRest
  | startsField free =>
    rcases contains with inContent | inFields | ⟨other, same, -⟩
    · have inside := infix_of_append segmental.occupied inContent
        (segmental.apart fun line member => .inl (remarks line member))
      exact .inl (inFront inside)
    · exact .inr (.inl inFields)
    · rw [free] at same
      cases same

end OpenDeclaration

namespace Outline

variable {outline : Outline}

theorem contains_settled (segmental : Segmental piece)
    (contains : (∃ item ∈ outline.items, item.Contains piece) ∨ piece <:+: outline.loose) :
    ∃ item ∈ outline.settled, item.Contains piece := by
  unfold settled
  rcases contains with ⟨item, member, inside⟩ | inside
  · refine ⟨item, ?_, inside⟩
    split
    · exact member
    · exact mem_append_left _ member
  · split
    next empty =>
      rw [List.isEmpty_iff.mp empty] at inside
      exact absurd (infix_nil.mp inside) segmental.occupied
    next => exact ⟨.loose outline.loose, by simp, inside⟩

theorem Contains.add (contains : outline.Contains piece) (segmental : Segmental piece)
    (sound : outline.Sound reads level) : (outline.add line).Contains piece := by
  have step := outline.step_add line
  generalize outline.add line = next at step
  have noDeclaration (none_ : outline.declaration = none) :
      (∃ item ∈ outline.items, item.Contains piece) ∨ piece <:+: outline.loose := by
    rcases contains with inItems | inLoose | ⟨declaration, open_, -⟩
    · exact .inl inItems
    · exact .inr inLoose
    · rw [none_] at open_
      cases open_
  have remarks {declaration : OpenDeclaration} (open_ : outline.declaration = some declaration) :
      ∀ line ∈ declaration.waiting, line.shape = .comment :=
    fun line member => ((sound.declaration declaration open_).2.waiting line member).shape
  cases step with
  | @within declaration more open_ added =>
    rcases contains with inItems | inLoose | ⟨other, same, inside⟩
    · exact .inl inItems
    · exact .inr (.inl inLoose)
    · rw [open_] at same
      cases same
      have stepped := inside.step segmental (remarks open_) (declaration.step_add line)
      rw [added] at stepped
      exact .inr (.inr ⟨more, rfl, stepped⟩)
  | @completes declaration complete open_ added =>
    rcases contains with ⟨item, member, inside⟩ | inLoose | ⟨other, same, inside⟩
    · exact .inl ⟨item, mem_append_left _ member, inside⟩
    · exact .inr (.inl inLoose)
    · rw [open_] at same
      cases same
      have stepped := inside.step segmental (remarks open_) (declaration.step_add line)
      rw [added] at stepped
      exact .inl ⟨_, mem_append_right _ (mem_singleton_self _), stepped⟩
  | opens none_ => exact .inl (contains_settled segmental (noDeclaration none_))
  | inline none_ =>
    obtain ⟨item, member, inside⟩ := contains_settled segmental (noDeclaration none_)
    exact .inl ⟨item, mem_append_left _ member, inside⟩
  | loose none_ =>
    rcases noDeclaration none_ with inItems | inLoose
    · exact .inl inItems
    · exact .inr (.inl (inLoose.trans (prefix_append _ _).isInfix))

theorem Contains.foldl (readAt : ReadsAt properties reads)
    (contains : outline.Contains piece) (segmental : Segmental piece)
    (run : Run reads level lines final)
    (sound : outline.Sound reads level) : (lines.foldl Outline.add outline).Contains piece := by
  induction run generalizing outline with
  | nil => exact contains
  | cons read _ ih => exact ih (contains.add segmental sound) (sound.add readAt read)

theorem Contains.finish (contains : outline.Contains piece) (segmental : Segmental piece)
    (sound : outline.Sound reads level) : ∃ item ∈ outline.finish, item.Contains piece := by
  unfold Outline.finish
  cases open_ : outline.declaration with
  | none =>
    refine contains_settled segmental ?_
    rcases contains with inItems | inLoose | ⟨declaration, same, -⟩
    · exact .inl inItems
    · exact .inr inLoose
    · rw [open_] at same
      cases same
  | some declaration =>
    rcases contains with ⟨item, member, inside⟩ | inLoose | ⟨other, same, inside⟩
    · exact ⟨item, mem_append_left _ member, inside⟩
    · rw [(sound.declaration declaration open_).1] at inLoose
      exact absurd (infix_nil.mp inLoose) segmental.occupied
    · rw [open_] at same
      cases same
      exact ⟨_, mem_append_right _ (mem_singleton_self _), inside.abandon⟩

/-- A line of a segment goes where the line before it went. -/
theorem latest_add (outline : Outline) (inside : line.shape.inSegment = true) :
    outline.latest ++ [line] <:+ (outline.add line).latest := by
  have step := outline.step_add line
  generalize outline.add line = next at step
  have other {shape : Shape} (same : line.shape = shape) (outside : shape.inSegment = false) :
      False := by
    rw [same, outside] at inside
    cases inside
  cases step with
  | @within declaration more open_ added =>
    have stepped := declaration.step_add line
    rw [added] at stepped
    simp only [latest, open_]
    cases stepped with
    | endsField _ close => exact (other close rfl).elim
    | inField found => simp [found]
    | kept free => simp [free, OpenDeclaration.keep]
    | skipped _ _ comment | waits _ _ comment => exact (other comment rfl).elim
    | startsField _ _ opens =>
      obtain ⟨key, name, shape, -⟩ := opensField_iff.mp opens
      exact (other shape rfl).elim
  | @completes declaration complete open_ added =>
    have stepped := declaration.step_add line
    rw [added] at stepped
    cases stepped with
    | ends _ _ close => exact (other close rfl).elim
  | opens _ _ shape | inline _ _ shape => exact (other shape rfl).elim
  | loose none_ => simp [latest, none_]

theorem latest_foldl (outline : Outline) (inside : ∀ line ∈ lines, line.shape.inSegment = true) :
    outline.latest ++ lines <:+ (lines.foldl add outline).latest := by
  induction lines generalizing outline with
  | nil => simp
  | cons line lines ih =>
    obtain ⟨before, whole⟩ := latest_add outline (inside line mem_cons_self)
    have later := ih (outline.add line) (forall_mem_cons.mp inside).2
    rw [foldl_cons]
    refine List.IsSuffix.trans ⟨before, ?_⟩ later
    rw [← whole]
    simp

theorem contains_of_latest (ends : piece <:+ outline.latest) : outline.Contains piece := by
  unfold latest at ends
  split at ends
  next => exact .inr (.inl ends.isInfix)
  next declaration open_ =>
    refine .inr (.inr ⟨declaration, open_, ?_⟩)
    split at ends
    next => exact .inl ends.isInfix
    next field found => exact .inr (.inr ⟨field, found, ends.isInfix⟩)

end Outline

/-- The lines of a segment stay together in a part of the document. -/
theorem Document.exists_contains
    (readAt : ReadsAt properties reads)
    {lexed : Lexed} (run : Run reads (.outside 0) lexed.lines final) (segmental : Segmental piece)
    (inside : piece <:+: lexed.lines) : ∃ item ∈ (ofLexed lexed).items, item.Contains piece := by
  obtain ⟨before, after, whole⟩ := inside
  rw [← whole, append_assoc] at run
  obtain ⟨middle, front, back⟩ := run.split
  obtain ⟨behind, taken, rest⟩ := back.split
  have sound := ((Outline.sound_empty reads).foldl readAt front).foldl readAt taken
  have ends : piece <:+ (piece.foldl Outline.add (before.foldl Outline.add {})).latest :=
    (suffix_append _ _).trans (Outline.latest_foldl _ segmental.inSegment)
  have contains := (Outline.contains_of_latest ends).foldl readAt segmental rest sound
  have last := contains.finish segmental (sound.foldl readAt rest)
  rwa [← foldl_append, ← foldl_append, ← append_assoc, whole] at last

end Keeping

/-- A segment that is ended, as it stands among lines. -/
structure Segment.Whole (segment : Segment) (lines : List Line) : Prop extends
    segment.StandsIn lines where
  terminated : segment.terminated = true
  trimmed : Trimmed segment.value
  ended : segment.inline = true → endsSegment (trim segment.value) = true

section Whole

variable {properties : List Text} {reads : Level → Line → Prop} {depth : Nat}
  {source lines : List Line} {final : Level} {segment : Segment}

theorem Segment.Whole.segmental (whole : segment.Whole lines) : Segmental segment.lines where
  occupied := by simp [Segment.lines]
  inSegment := fun line member => (whole.shape_cases line member).1

/-- The segments of a run that leads outside segments. -/
theorem Run.whole_of_grouped (readAt : ReadsAt properties reads)
    (run : Run reads (.outside depth) lines final) (outside : final.segment = none)
    (member : .grouped segment ∈ Entry.group lines) : segment.Whole lines := by
  have stands := (run.entries readAt).standsIn readAt segment member
  obtain ⟨level, read⟩ := run.exists_of_mem (stands.together.subset mem_cons_self)
  have isRead := readAt _ _ read
  have reading := (isRead.eq_outside stands.opening_ne.1 stands.opening_ne.2 ▸ isRead).reading
  have value : Trimmed segment.value ∧
      (segment.inline = true → endsSegment (trim segment.value) = true) := by
    cases inline : segment.inline with
    | false =>
      rw [stands.opens inline] at reading
      cases reading with
      | segmentOpen _ _ found => exact ⟨trimmed_of_property found, nofun⟩
    | true =>
      rw [(stands.inline inline).2] at reading
      cases reading with
      | segmentInline _ _ found _ ended =>
        have trimmed := trimmed_of_property found
        exact ⟨trimmed, fun _ => trimmed.trim_eq.symm ▸ ended⟩
  exact ⟨stands, (run.entries readAt).terminated outside segment member, value.1, value.2⟩

theorem Segment.Whole.mem_group (whole : segment.Whole source)
    (readAt : ReadsAt properties reads)
    (run : Run reads (.outside depth) lines final) (inside : segment.lines <:+: lines) :
    .grouped segment ∈ Entry.group lines := by
  obtain ⟨before, after, rfl⟩ := inside
  rw [append_assoc] at run ⊢
  exact whole.toStandsIn.mem_group readAt run (by simp [whole.terminated])

end Whole

namespace Layout

theorem exists_collapseFrom_append (started gap : Bool) (before rest : List Text) :
    ∃ lead started' gap', collapseFrom started gap (before ++ rest) =
      lead ++ collapseFrom started' gap' rest := by
  induction before generalizing started gap with
  | nil => exact ⟨[], started, gap, rfl⟩
  | cons line before ih =>
    rw [cons_append, collapseFrom]
    split
    next => exact ih started true
    next =>
      obtain ⟨lead, started', gap', same⟩ := ih true false
      rw [same]
      split
      · exact ⟨[] :: line :: lead, started', gap', rfl⟩
      · exact ⟨line :: lead, started', gap', rfl⟩

/-- Lines that end with one that is not empty are collapsed by themselves. -/
theorem collapseFrom_append_of_last {lines : List Text}
    (filled : ∀ last ∈ lines.getLast?, last ≠ [])
    (gap : Bool) (waits : lines = [] → gap = false) (after : List Text) :
    collapseFrom true gap (lines ++ after) =
      collapseFrom true gap lines ++ collapseFrom true false after := by
  induction lines generalizing gap with
  | nil =>
    rw [waits rfl]
    rfl
  | cons line lines ih =>
    have later := forall_last_of_cons filled
    rw [cons_append, collapseFrom, collapseFrom]
    split
    next empty =>
      refine ih later true fun none_ => ?_
      subst none_
      exact absurd (List.isEmpty_iff.mp empty) (filled line rfl)
    next =>
      rw [ih later false fun _ => rfl]
      split <;> rfl

/-- Lines between two that are not empty are collapsed by themselves. -/
theorem collapseBlankLines_infix {first : Text} {rest lines : List Text} (occupied : first ≠ [])
    (filled : ∀ last ∈ rest.getLast?, last ≠ []) (inside : first :: rest <:+: lines) :
    collapseBlankLines (first :: rest) <:+: collapseBlankLines lines := by
  obtain ⟨before, after, rfl⟩ := inside
  obtain ⟨lead, started, gap, whole⟩ :=
    exists_collapseFrom_append false false before (first :: rest ++ after)
  have split := collapseFrom_append_of_last filled false (fun _ => rfl) after
  have notEmpty : first.isEmpty = false := by simpa using occupied
  rw [collapseBlankLines_cons occupied, collapseBlankLines, append_assoc, whole, cons_append,
    collapseFrom, notEmpty, if_neg Bool.false_ne_true, split]
  split
  · exact ⟨lead ++ [[]], collapseFrom true false after, by simp⟩
  · exact ⟨lead, collapseFrom true false after, by simp⟩

end Layout

namespace Sql.Style

variable {style : Style} {segment : Segment} {source : List Line}

/-- The layout of a segment that is ended begins and ends with lines that are not empty. -/
theorem exists_segmentLines (terminated : segment.terminated = true) : ∃ first rest,
    style.segmentLines segment = first :: rest ∧ first ≠ [] ∧
      ∀ last ∈ rest.getLast?, last ≠ [] := by
  have headed (text : Text) : style.headLine segment text ≠ [] := by
    obtain ⟨lead, occupied, same⟩ := style.exists_headLine segment text
    simp [same, occupied]
  unfold segmentLines
  cases inline : segment.inline with
  | true => exact ⟨_, [], rfl, by simp, by simp⟩
  | false =>
    obtain ⟨closing, found⟩ := Option.isSome_iff_exists.mp
      (show segment.closing.isSome = true by simpa [Segment.terminated, inline] using terminated)
    rw [if_neg Bool.false_ne_true, found]
    refine ⟨_, _, rfl, headed _, fun last member => ?_⟩
    have same : style.indent segment.depth ++ terminator = last := by simpa using member
    rw [← same]
    simp [terminator]

/-- Atoms without two empty lines in a row are found where runs of empty lines are reduced. -/
theorem inOrder_collapsed (whole : segment.Whole source)
    (sheltered : segment.Sheltered style)
    (close : ∀ atom ∈ segment.atoms style.markup, ¬ ['\n', '\n', '\n'] <:+: atom) :
    InOrder (segment.atoms style.markup)
      (joinLines (collapseBlankLines (style.segmentLines segment))) := by
  obtain ⟨first, rest, same, occupied, filled⟩ := style.exists_segmentLines whole.terminated
  have ordered := style.inOrder_segmentLines whole.trimmed whole.ended sheltered
  rw [same, joinLines_cons] at ordered
  rw [same, collapseBlankLines_cons occupied, joinLines_cons]
  exact InOrder.collapseFrom (segment.begun_atoms style.markup) close filled false (fun _ => rfl)
    ordered

end Sql.Style

section Layouts

variable {declaration : Declaration}

variable {settings : FormatSettings} {segment : Segment} {reads : Level → Line → Prop}
  {depth : Nat} {source lines : List Line} {final : Level}
  (readAt : ∀ level line, reads level line → line.ReadAt settings.segmentProperties level)

namespace FormatSettings

theorem infix_lines (verbatim : Bool) (member : .grouped segment ∈ Entry.group lines) :
    (settings.style segment.property).segmentLines segment <:+: settings.lines verbatim lines :=
  infix_flatMap_of_member member (settings.entry verbatim)

/-- A field of a declaration is laid out as a whole. -/
theorem infix_declaration {field : Field} (member : field ∈ declaration.fields)
    (header : ∃ key name, declaration.header.shape = .blockOpen key name) :
    settings.field field <:+: settings.declaration declaration := by
  obtain ⟨part, inSections, inPart⟩ :
      ∃ part ∈ Section.arrange settings.groupFields settings.sortFields
      declaration.fields, field ∈ part.fields := by
    have same := Section.perm_arrange settings.groupFields settings.sortFields declaration.fields
    exact mem_flatMap.mp (same.mem_iff.mpr member)
  have inChunk : ∃ chunk ∈ settings.chunks part, settings.field field <:+: chunk := by
    unfold chunks
    split
    · exact ⟨_, mem_map_of_mem inPart, infix_rfl⟩
    next first last _ =>
      refine ⟨_, mem_singleton_self _, ?_⟩
      have behind := infix_flatMap_of_member inPart (fun field => [] :: settings.field field)
      have among := (suffix_cons [] (settings.field field)).isInfix.trans behind
      exact (among.trans (suffix_cons _ _).isInfix).trans (prefix_append _ _).isInfix
  obtain ⟨chunk, inChunks, inside⟩ := inChunk
  have known :
      chunk ∈ (Section.arrange settings.groupFields settings.sortFields declaration.fields).flatMap
      settings.chunks := mem_flatMap.mpr ⟨part, inSections, inChunks⟩
  have spaced := infix_flatMap_of_member known (fun chunk => [] :: chunk)
  have placed := (inside.trans (suffix_cons [] chunk).isInfix).trans spaced
  obtain ⟨key, name, opens⟩ := header
  unfold FormatSettings.declaration
  rw [opens]
  dsimp only
  refine placed.trans ?_
  exact ((suffix_append _ _).isInfix.trans (prefix_append _ _).isInfix).trans
    (prefix_append _ _).isInfix

theorem infix_content (header : ∃ key name, declaration.header.shape = .blockOpen key name) :
    collapseBlankLines (settings.lines false declaration.content) <:+:
      settings.declaration declaration := by
  obtain ⟨key, name, opens⟩ := header
  unfold FormatSettings.declaration
  rw [opens]
  dsimp only
  exact (((suffix_append _ _).isInfix.trans (prefix_append _ _).isInfix).trans
    (prefix_append _ _).isInfix).trans (prefix_append _ _).isInfix

end FormatSettings

include readAt

/-- A segment inside a field is laid out with the declaration that has the field. -/
theorem Segment.Whole.infix_of_field {field : Field} {last : Level}
    (whole : segment.Whole source) (member : field ∈ declaration.fields)
    (header : ∃ key name, declaration.header.shape = .blockOpen key name)
    (sound : field.Sound reads last) (inside : segment.lines <:+: field.inner) :
    (settings.style segment.property).segmentLines segment <:+:
      settings.declaration declaration := by
  have inLines : segment.lines <:+: field.lines :=
    inside.trans ⟨[field.opening], field.closing.toList, by simp [Field.lines]⟩
  have shown := settings.infix_lines false (whole.mem_group readAt sound.run inLines)
  exact (shown.trans (suffix_append _ _).isInfix).trans (settings.infix_declaration member header)

/-- A segment outside the fields is laid out with its declaration, its own blank lines reduced. -/
theorem Segment.Whole.infix_of_content {last : Level} (whole : segment.Whole source)
    (header : ∃ key name, declaration.header.shape = .blockOpen key name)
    (run : Run reads (.outside 1) declaration.content last)
    (inside : segment.lines <:+: declaration.content) :
    .grouped segment ∈ Entry.group declaration.content ∧
      collapseBlankLines ((settings.style segment.property).segmentLines segment) <:+:
        settings.declaration declaration := by
  have member := whole.mem_group readAt run inside
  obtain ⟨first, rest, same, occupied, filled⟩ :=
    (settings.style segment.property).exists_segmentLines whole.terminated
  have shown := settings.infix_lines false member
  rw [same] at shown ⊢
  have reduced := collapseBlankLines_infix occupied filled shown
  exact ⟨member, reduced.trans (settings.infix_content header)⟩

/-- Where a segment is, its layout is written: as it is, or reduced in the content of a
declaration. -/
theorem Item.Contains.infix_item {item : Item} (contains : item.Contains segment.lines)
    (whole : segment.Whole source)
    (sound : item.Sound reads final) :
    (settings.style segment.property).segmentLines segment <:+: settings.item item ∨
      ∃ declaration, item = .declaration declaration ∧
        .grouped segment ∈ Entry.group declaration.content ∧
        collapseBlankLines ((settings.style segment.property).segmentLines segment) <:+:
          settings.item item := by
  cases item with
  | loose lines =>
    exact .inl (settings.infix_lines true (whole.mem_group readAt sound.2.1 contains))
  | declaration found =>
    rcases sound with ⟨-, inline | closed⟩ | abandoned
    · rw [inline.eq] at contains
      rcases contains with inside | ⟨field, member, -⟩
      · exact absurd (infix_nil.mp inside) whole.segmental.occupied
      · cases member
    · rcases contains with inside | ⟨field, member, inside⟩
      · exact .inr ⟨found, rfl, whole.infix_of_content readAt closed.opens closed.run inside⟩
      · have complete := closed.complete field member
        exact .inl (whole.infix_of_field readAt member closed.opens complete.toSound inside)
    · rcases contains with inside | ⟨field, member, inside⟩
      · obtain ⟨last, run, -⟩ := abandoned.run
        exact .inr ⟨found, rfl, whole.infix_of_content readAt abandoned.shape run inside⟩
      · rcases abandoned.fields field member with complete | ⟨unfinished, -⟩
        · exact .inl (whole.infix_of_field readAt member abandoned.shape complete.toSound inside)
        · exact .inl (whole.infix_of_field readAt member abandoned.shape unfinished inside)

end Layouts

section Formatting

variable {settings : FormatSettings} {text : Text} {segment : Segment}

/-- The atoms of a sheltered segment stand in the formatted text, in its laid out segment and
in their order.  In the content of a declaration they must not hold two empty lines in a row. -/
theorem FormatSettings.inOrder_formatText
    (intact : (Document.ofText settings.segmentProperties text).nestingBroken = false)
    (member : .grouped segment ∈ Entry.group (Lexed.ofText settings.segmentProperties text).lines)
    (sheltered : segment.Sheltered (settings.style segment.property))
    (close : ∀ declaration ∈ (Document.ofText settings.segmentProperties text).declarations,
      .grouped segment ∈ Entry.group declaration.content →
        ∀ atom ∈ segment.atoms (settings.style segment.property).markup,
          ¬ ['\n', '\n', '\n'] <:+: atom) :
    ∃ before rendered after, settings.formatText text = joinLines (before ++ rendered ++ after) ∧
      (rendered = (settings.style segment.property).segmentLines segment ∨
        rendered = collapseBlankLines
          ((settings.style segment.property).segmentLines segment)) ∧
      InOrder (segment.atoms (settings.style segment.property).markup) (joinLines rendered) := by
  have readAt (level : Level) (line : Line) (read : line.ReadAt settings.segmentProperties level) :=
    read
  have run := Lexed.run_ofText settings.segmentProperties text
  have ended := ((Document.intact_iff settings.segmentProperties text.lines).mp intact).2
  rw [← Lexed.ofText_eq] at ended
  rw [ended] at run
  have whole := run.whole_of_grouped readAt rfl member
  obtain ⟨item, known, contains⟩ :=
    Document.exists_contains readAt run whole.segmental whole.together
  have sound : item.Sound (Line.ReadAt settings.segmentProperties) (.outside 0) :=
    (Document.sound_items readAt run item known).elim id id
  have shown : settings.item item <:+:
      settings.document (.ofText settings.segmentProperties text) :=
    infix_flatMap_of_member known settings.item
  rw [settings.formatText_of_intact intact]
  rcases contains.infix_item readAt whole sound with asIs | ⟨declaration, rfl, inContent, reduced⟩
  · obtain ⟨before, after, placed⟩ := asIs.trans shown
    refine ⟨before, _, after, by rw [placed], .inl rfl, ?_⟩
    exact (settings.style segment.property).inOrder_segmentLines whole.trimmed whole.ended sheltered
  · obtain ⟨before, after, placed⟩ := reduced.trans shown
    refine ⟨before, _, after, by rw [placed], .inr rfl, ?_⟩
    have declared : declaration ∈ (Document.ofText settings.segmentProperties text).declarations :=
      List.mem_filterMap.mpr ⟨_, known, rfl⟩
    exact (settings.style segment.property).inOrder_collapsed whole sheltered
      (close declaration declared inContent)

end Formatting

/-- A view with a template tag that goes over a number of empty lines, and more behind it. -/
def gappedView (gap : Nat) (more : Text) : Text :=
  "view: v \x7b\n  sql: \x7b% a\n".toList ++ (List.replicate gap '\n' ++
    (" b %\x7d".toList ++ (more ++ " ;;\n\x7d".toList)))

/-- The segment with the tag. -/
def gappedSegment (gap : Nat) (more : Text) : Segment where
  property := "sql".toList
  value := "\x7b% a".toList
  inline := false
  opening := ⟨1, "  sql: \x7b% a".toList, 1, .segmentOpen "sql".toList "\x7b% a".toList⟩
  body := (List.range gap).map fun index => ⟨index + 2, [], 1, .segmentContent⟩
  closing := some ⟨gap + 2, " b %\x7d".toList ++ (more ++ " ;;".toList), 1, .segmentClose⟩

/-- The quoted text behind the tag is not closed before the terminator. -/
theorem FormatSettings.inOrder_formatText_gapped :
    (gappedSegment 1 " 'c".toList).atoms false = ["\x7b% a\n\n b %\x7d".toList, "'c ".toList] ∧
      (gappedSegment 1 " 'c".toList).Sheltered (({} : FormatSettings).style "sql".toList) ∧
      ∃ before rendered after,
        ({} : FormatSettings).formatText (gappedView 1 " 'c".toList) =
          joinLines (before ++ rendered ++ after) ∧
        (rendered = (({} : FormatSettings).style "sql".toList).segmentLines
          (gappedSegment 1 " 'c".toList) ∨ rendered = collapseBlankLines
            ((({} : FormatSettings).style "sql".toList).segmentLines
              (gappedSegment 1 " 'c".toList))) ∧
        InOrder ((gappedSegment 1 " 'c".toList).atoms
          (({} : FormatSettings).style "sql".toList).markup) (joinLines rendered) := by
  have sheltered : (gappedSegment 1 " 'c".toList).Sheltered
      (({} : FormatSettings).style "sql".toList) := by
    decide +kernel
  refine ⟨by decide +kernel, sheltered, inOrder_formatText (by decide +kernel) (by decide +kernel)
    sheltered ?_⟩
  decide +kernel

/-- Of two empty lines in a tag in the content of a declaration only one is left. -/
theorem FormatSettings.not_infix_formatText_gapped :
    (Document.ofText ({} : FormatSettings).segmentProperties (gappedView 2 [])).nestingBroken =
        false ∧
      .grouped (gappedSegment 2 []) ∈ Entry.group
        (Lexed.ofText ({} : FormatSettings).segmentProperties (gappedView 2 [])).lines ∧
      (gappedSegment 2 []).atoms false = ["\x7b% a\n\n\n b %\x7d".toList] ∧
      ¬ "\x7b% a\n\n\n b %\x7d".toList <:+: ({} : FormatSettings).formatText (gappedView 2 []) := by
  decide +kernel

end LookML
