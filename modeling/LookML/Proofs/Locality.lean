import LookML.Proofs.Fidelity
import LookML.Proofs.Occurrences
import LookML.Proofs.Relabelling

/-!
# Formatting part by part

Two intact texts written one after the other are formatted as each of them is by itself.
Where the first one ends, no block and no segment is open, so the second one is read as it
would be alone, under larger line numbers.  Loose text at the end of the first and at the
beginning of the second becomes one part of the document, but is laid out line by line.
-/

namespace LookML

open Text Code List

namespace Text

theorem splitBreaks_append_feed {first : Text} (plain : '\r' ∉ first) (second : Text) :
    splitBreaks (first ++ '\n' :: second) = splitBreaks first ++ splitBreaks second := by
  induction first with
  | nil => rw [nil_append, splitBreaks_cons (by decide), if_pos rfl]; rfl
  | cons c first ih =>
    simp only [mem_cons, not_or] at plain
    rw [cons_append, splitBreaks_cons (Ne.symm plain.1), splitBreaks_cons (Ne.symm plain.1),
      ih plain.2]
    obtain ⟨line, lines, same⟩ := exists_cons_of_ne_nil (splitBreaks_ne_nil first)
    rw [same]
    split <;> rfl

theorem joinLines_append {first second : List Text} (some₁ : first ≠ []) (some₂ : second ≠ []) :
    joinLines (first ++ second) = joinLines first ++ '\n' :: joinLines second := by
  obtain ⟨line, first, rfl⟩ := exists_cons_of_ne_nil some₁
  obtain ⟨next, second, rfl⟩ := exists_cons_of_ne_nil some₂
  rw [cons_append, joinLines_cons, joinLines_cons, joinLines_cons, feedLines_append,
    feedLines_cons, append_assoc]

end Text

section Numbers

/-- Lines read from equal levels differ in nothing but their numbers. -/
theorem Nesting.classify_renumber (properties : List Text) {nesting other : Nesting}
    (same : other.level = nesting.level) (number shift : Nat) (texts : List Text) :
    other.classify properties (number + shift) texts =
      (nesting.classify properties number texts).map (Line.renumber (· + shift)) := by
  induction texts generalizing nesting other number with
  | nil => rfl
  | cons text texts ih =>
    have here : other.line properties (number + shift) text =
        (nesting.line properties number text).renumber (· + shift) := by
      have read := nesting.readAt_line properties number text
      have again := other.readAt_line properties (number + shift) text
      rw [same] at again
      have depth := again.depth.trans read.depth.symm
      have shape := again.shape.trans read.shape.symm
      exact congrArg₂ (Line.mk (number + shift) text) depth shape
    have later : (other.advance (other.line properties (number + shift) text)).level =
        (nesting.advance (nesting.line properties number text)).level := by
      rw [level_advance, level_advance, same, here]
      rfl
    rw [classify, classify, map_cons, ← ih later, Nat.add_right_comm, here]

variable (settings : FormatSettings) (number : Nat → Nat)

theorem Sql.Style.segmentLines_renumber (style : Sql.Style) (segment : Segment) :
    style.segmentLines (segment.map (Line.renumber number)) = style.segmentLines segment := by
  have body : (segment.map (Line.renumber number)).body.map (·.text) =
      segment.body.map (·.text) := by
    simp [Segment.map, Line.renumber]
  have closing : (segment.map (Line.renumber number)).closing.toList =
      segment.closing.toList.map (Line.renumber number) := by
    cases segment with
    | mk _ _ _ _ _ closing => cases closing <;> rfl
  have value : (segment.map (Line.renumber number)).value = segment.value := Segment.value_map rfl
  unfold segmentLines
  simp only [body, closing, value, filterMap_map, map_map]
  rfl

theorem FormatSettings.entry_renumber (verbatim : Bool) (entry : Entry) :
    settings.entry verbatim (entry.map (Line.renumber number)) = settings.entry verbatim entry := by
  cases entry with
  | single line => rfl
  | grouped segment => exact Sql.Style.segmentLines_renumber number _ segment

theorem Section.ofCategory_renumber (group sort : Bool) (fields : List Field)
    (category : Category) :
    ofCategory group sort (fields.map (Field.map (Line.renumber number))) category =
      { ofCategory group sort fields category with
        fields := (ofCategory group sort fields category).fields.map
          (Field.map (Line.renumber number)) } := by
  have members : (fields.map (Field.map (Line.renumber number))).filter
        (fun field => Category.ofKind field.kind = category) =
      (fields.filter fun field => Category.ofKind field.kind = category).map
        (Field.map (Line.renumber number)) := by
    rw [filter_map]
    rfl
  unfold ofCategory
  rw [members]
  dsimp only
  split
  · rw [map_mergeSort]
    intro first _ second _
    rfl
  · rfl

theorem Section.arrange_renumber (group sort : Bool) (fields : List Field) :
    arrange group sort (fields.map (Field.map (Line.renumber number))) =
      (arrange group sort fields).map fun part =>
        { part with fields := part.fields.map (Field.map (Line.renumber number)) } := by
  unfold arrange
  rw [isEmpty_map]
  split
  · rfl
  split
  · rfl
  · have sections : ofCategory group sort (fields.map (Field.map (Line.renumber number))) =
        (fun part : Section =>
          { part with fields := part.fields.map (Field.map (Line.renumber number)) }) ∘
            ofCategory group sort fields :=
      funext (ofCategory_renumber number group sort fields)
    rw [sections, ← map_map, filter_map]
    refine congrArg _ (filter_congr fun part _ => ?_)
    simp

variable {number} (order : ∀ first second, number first < number second ↔ first < second)
include order

theorem FormatSettings.lines_renumber (verbatim : Bool) (lines : List Line) :
    settings.lines verbatim (lines.map (Line.renumber number)) = settings.lines verbatim lines := by
  rw [FormatSettings.lines, Entry.group_map (Line.relabels_renumber order), flatMap_map]
  exact flatMap_congr fun entry _ => settings.entry_renumber number verbatim entry

theorem FormatSettings.field_renumber (field : Field) :
    settings.field (field.map (Line.renumber number)) = settings.field field := by
  rw [FormatSettings.field, Field.lines_map, settings.lines_renumber order]
  exact congrArg (· ++ _) (settings.lines_renumber order false field.comments)

theorem FormatSettings.chunks_renumber (part : Section) :
    settings.chunks { part with fields := part.fields.map (Field.map (Line.renumber number)) } =
      settings.chunks part := by
  have field : settings.field ∘ Field.map (Line.renumber number) = settings.field :=
    funext (settings.field_renumber order)
  have depth : ((part.fields.map (Field.map (Line.renumber number))).head?.map Field.depth) =
      part.fields.head?.map Field.depth := by
    rw [head?_map, Option.map_map]
    rfl
  have markers :
      Section.markers? { part with fields := part.fields.map (Field.map (Line.renumber number)) } =
      part.markers? := rfl
  unfold chunks
  rw [markers]
  cases part.markers? with
  | none => rw [map_map, field]
  | some markers => simp only [depth, flatMap_map, settings.field_renumber order]

theorem FormatSettings.declaration_renumber (declaration : Declaration) :
    settings.declaration (declaration.map (Line.renumber number)) =
      settings.declaration declaration := by
  have sections : (Section.arrange settings.groupFields settings.sortFields
        (declaration.fields.map (Field.map (Line.renumber number)))).flatMap settings.chunks =
      (Section.arrange settings.groupFields settings.sortFields declaration.fields).flatMap
        settings.chunks := by
    rw [Section.arrange_renumber, flatMap_map]
    exact flatMap_congr fun part _ => settings.chunks_renumber order part
  have footer : (declaration.footer.map (Line.renumber number)).toList.map settings.line =
      declaration.footer.toList.map settings.line := by
    cases declaration.footer <;> rfl
  have header : settings.line (declaration.header.renumber number) =
      settings.line declaration.header := rfl
  have shape : (declaration.header.renumber number).shape = declaration.header.shape := rfl
  unfold FormatSettings.declaration
  rw [Declaration.map]
  dsimp only
  rw [shape, header, sections, footer, settings.lines_renumber order, settings.lines_renumber order,
    isEmpty_map]

theorem FormatSettings.item_renumber (item : Item) :
    settings.item (item.map (Line.renumber number)) = settings.item item := by
  cases item with
  | loose lines => exact settings.lines_renumber order true lines
  | declaration declaration => exact settings.declaration_renumber order declaration

theorem FormatSettings.outline_renumber (outline : Outline) :
    settings.outline (outline.map (Line.renumber number)) = settings.outline outline := by
  have items : (outline.map (Line.renumber number)).items.flatMap settings.item =
      outline.items.flatMap settings.item := by
    rw [Outline.map, flatMap_map]
    exact flatMap_congr fun item _ => settings.item_renumber order item
  rw [FormatSettings.outline, items]
  exact congrArg _ (settings.lines_renumber order true outline.loose)

end Numbers

section Seam

variable {settings : FormatSettings} {before outline after : Outline}

/-- How an outline that is begun after other parts goes on like one begun with none: the loose
lines at the end of these parts stay loose until the next declaration. -/
structure Outline.Continues (settings : FormatSettings) (before outline after : Outline) :
    Prop where
  declaration : after.declaration = outline.declaration
  idle : after.declaration ≠ none → after.loose = []
  seam : ∃ rest, Run (Line.ReadAt settings.segmentProperties) (.outside 0) rest (.outside 0) ∧
    after.loose = rest ++ outline.loose ∧
    after.items.flatMap settings.item ++ settings.lines true rest =
      settings.outline before ++ outline.items.flatMap settings.item

namespace Outline.Continues

theorem layout (continues : Continues settings before outline after) :
    settings.outline after = settings.outline before ++ settings.outline outline := by
  obtain ⟨rest, run, loose, items⟩ := continues.seam
  calc settings.outline after
      = after.items.flatMap settings.item ++
          (settings.lines true rest ++ settings.lines true outline.loose) := by
        rw [FormatSettings.outline, loose, settings.lines_append true run rfl]
    _ = settings.outline before ++ outline.items.flatMap settings.item ++
          settings.lines true outline.loose := by
        rw [← append_assoc, items]
    _ = settings.outline before ++ settings.outline outline := by
        rw [append_assoc]
        rfl

/-- With a declaration opened behind both, the loose lines are settled. -/
theorem opened (continues : Continues settings before outline after)
    (declaration : OpenDeclaration) :
    Continues settings before { items := outline.settled, declaration := some declaration }
      { items := after.settled, declaration := some declaration } where
  declaration := rfl
  idle := fun _ => rfl
  seam := by
    refine ⟨[], .nil _, rfl, ?_⟩
    rw [settings.outline_settled, settings.outline_settled, continues.layout]
    exact append_nil _

theorem closed (continues : Continues settings before outline after) (settled : after.loose = [])
    (declaration : Declaration) :
    Continues settings before
      { outline with items := outline.items ++ [.declaration declaration], declaration := none }
      { after with items := after.items ++ [.declaration declaration], declaration := none } where
  declaration := rfl
  idle := fun open_ => absurd rfl open_
  seam := by
    obtain ⟨rest, -, loose, items⟩ := continues.seam
    rw [settled] at loose
    obtain ⟨noRest, noLoose⟩ := append_eq_nil_iff.mp loose.symm
    subst noRest
    refine ⟨[], .nil _, by rw [settled, noLoose, nil_append], ?_⟩
    rw [flatMap_append, flatMap_append, ← append_assoc, ← items]
    simp [FormatSettings.lines, Entry.group, Entry.groupFrom]

theorem add (continues : Continues settings before outline after) (line : Line) :
    Continues settings before (outline.add line) (after.add line) := by
  have same := continues.declaration
  have loose : Continues settings before
      { items := outline.items, loose := outline.loose ++ [line] }
      { items := after.items, loose := after.loose ++ [line] } := by
    obtain ⟨rest, run, loose, items⟩ := continues.seam
    refine ⟨rfl, fun open_ => absurd rfl open_, rest, run, ?_, items⟩
    rw [loose, append_assoc]
  unfold Outline.add
  rw [same]
  cases open_ : outline.declaration with
  | some declaration =>
    have settled := continues.idle (by rw [same, open_]; simp)
    dsimp only
    cases declaration.add line with
    | inl more => exact ⟨rfl, fun _ => settled, continues.seam⟩
    | inr complete => exact continues.closed settled complete
  | none =>
    dsimp only
    split
    · split
      · exact continues.opened _
      · exact (continues.opened { header := line }).closed rfl _
      · exact loose
    · exact loose

theorem foldl (continues : Continues settings before outline after) (lines : List Line) :
    Continues settings before (lines.foldl Outline.add outline)
      (lines.foldl Outline.add after) := by
  induction lines generalizing outline after with
  | nil => exact continues
  | cons line lines ih => exact ih (continues.add line)

end Outline.Continues

/-- Behind lines that leave nothing open, an outline begins anew. -/
theorem Outline.continues_of_run {lines : List Line}
    (run : Run (Line.ReadAt settings.segmentProperties) (.outside 0) lines (.outside 0)) :
    Continues settings (lines.foldl add {}) {} (lines.foldl add {}) where
  declaration := declaration_of_run run
  idle := fun open_ => absurd (declaration_of_run run) open_
  seam := by
    have sound := (sound_empty _).foldl .refl run
    refine ⟨_, (sound.loose (declaration_of_run run)).2.1, (append_nil _).symm, ?_⟩
    exact (append_nil _).symm

end Seam

section Written

variable (settings : FormatSettings)

theorem Entry.groupFrom_ne_nil (pending : Segment) (lines : List Line) :
    groupFrom (some pending) lines ≠ [] := by
  induction lines generalizing pending with
  | nil => simp [groupFrom]
  | cons line lines ih =>
    rw [groupFrom]
    split
    · exact ih _
    · exact cons_ne_nil _ _
    · exact cons_ne_nil _ _
    · exact cons_ne_nil _ _

theorem FormatSettings.entry_ne_nil (verbatim : Bool) (entry : Entry) :
    settings.entry verbatim entry ≠ [] := by
  unfold FormatSettings.entry
  split
  · unfold Sql.Style.segmentLines
    split <;> simp
  · split
    · simp
    · simp
    · split <;> simp
    · simp

theorem FormatSettings.lines_ne_nil (verbatim : Bool) {lines : List Line} (occupied : lines ≠ []) :
    settings.lines verbatim lines ≠ [] := by
  obtain ⟨line, lines, rfl⟩ := exists_cons_of_ne_nil occupied
  have grouped : Entry.group (line :: lines) ≠ [] := by
    rw [Entry.group, Entry.groupFrom]
    split
    · exact Entry.groupFrom_ne_nil _ _
    · exact cons_ne_nil _ _
  obtain ⟨entry, entries, same⟩ := exists_cons_of_ne_nil grouped
  rw [FormatSettings.lines, same, flatMap_cons]
  exact append_ne_nil_of_left_ne_nil (settings.entry_ne_nil verbatim entry) _

theorem FormatSettings.declaration_ne_nil (declaration : Declaration) :
    settings.declaration declaration ≠ [] := by
  unfold FormatSettings.declaration
  split <;> simp

/-- Whatever a line completes is written. -/
theorem FormatSettings.outline_add_ne_nil {outline : Outline} {line : Line}
    (complete : (outline.add line).declaration = none) :
    settings.outline (outline.add line) ≠ [] := by
  have step := outline.step_add line
  generalize outline.add line = next at step complete
  have declared (items : List Item) (declaration : Declaration) (loose : List Line) :
      (items ++ [Item.declaration declaration]).flatMap settings.item ++
        settings.lines true loose ≠ [] := by
    simp [item, settings.declaration_ne_nil]
  cases step with
  | within => cases complete
  | completes => exact declared _ _ _
  | opens => cases complete
  | inline => exact declared _ _ _
  | loose =>
    refine append_ne_nil_of_right_ne_nil _ (settings.lines_ne_nil true ?_)
    simp

end Written

section Texts

variable (properties first second : List Text)

/-- Behind an intact text another one is read as it is by itself. -/
theorem Lexed.lines_append
    (ended : ((ofLines properties first).lines.foldl Nesting.advance {}).level = .outside 0) :
    (ofLines properties (first ++ second)).lines = (ofLines properties first).lines ++
      (ofLines properties second).lines.map (Line.renumber (· + first.length)) := by
  have same : ((ofLines properties first).lines.foldl Nesting.advance {}).level =
      ({} : Nesting).level := ended
  have later := Nesting.classify_renumber properties same 0 first.length second
  exact (Nesting.classify_append properties {} 0 first second).trans (congrArg _ later)

theorem Document.intact_append
    (intact₁ : (ofLexed (.ofLines properties first)).nestingBroken = false)
    (intact₂ : (ofLexed (.ofLines properties second)).nestingBroken = false) :
    (ofLexed (.ofLines properties (first ++ second))).nestingBroken = false := by
  obtain ⟨closes₁, ended₁⟩ := (intact_iff _ _).mp intact₁
  obtain ⟨closes₂, ended₂⟩ := (intact_iff _ _).mp intact₂
  refine (intact_iff _ _).mpr ?_
  rw [Lexed.lines_append _ _ _ ended₁]
  constructor
  · rw [forall_mem_append, forall_mem_map]
    exact ⟨closes₁, closes₂⟩
  · rw [foldl_append, Nesting.level_foldl, ended₁, map_map]
    rw [Nesting.level_foldl] at ended₂
    exact ended₂

end Texts

section Layouts

variable {settings : FormatSettings} {first second : List Text}

/-- The layout of an intact document is that of its outline. -/
theorem Document.layout_eq_outline {texts : List Text}
    (intact : (ofLexed (.ofLines settings.segmentProperties texts)).nestingBroken = false) :
    settings.document (ofLexed (.ofLines settings.segmentProperties texts)) =
      settings.outline
        ((Lexed.ofLines settings.segmentProperties texts).lines.foldl Outline.add {}) := by
  have run := Lexed.run_ofLines settings.segmentProperties texts
  rw [((intact_iff _ _).mp intact).2] at run
  rw [FormatSettings.document, items_ofLexed run, settings.outline_settled]

theorem Document.layout_append
    (intact₁ : (ofLexed (.ofLines settings.segmentProperties first)).nestingBroken = false)
    (intact₂ : (ofLexed (.ofLines settings.segmentProperties second)).nestingBroken = false) :
    settings.document (ofLexed (.ofLines settings.segmentProperties (first ++ second))) =
      settings.document (ofLexed (.ofLines settings.segmentProperties first)) ++
        settings.document (ofLexed (.ofLines settings.segmentProperties second)) := by
  have intact := intact_append _ _ _ intact₁ intact₂
  have ended := ((intact_iff _ _).mp intact₁).2
  have run := Lexed.run_ofLines settings.segmentProperties first
  rw [ended] at run
  rw [layout_eq_outline intact, layout_eq_outline intact₁, layout_eq_outline intact₂,
    Lexed.lines_append _ _ _ ended, foldl_append]
  have order (number other : Nat) : number + first.length < other + first.length ↔
      number < other := by
    omega
  have alone := settings.outline_renumber order
    ((Lexed.ofLines settings.segmentProperties second).lines.foldl Outline.add {})
  rw [← (Outline.foldl_map (Line.relabels_renumber order).retitles
    Outline.isTop_empty _).1] at alone
  rw [← alone]
  exact ((Outline.continues_of_run run).foldl _).layout

theorem Document.layout_ne_nil {texts : List Text} (occupied : texts ≠ [])
    (intact : (ofLexed (.ofLines settings.segmentProperties texts)).nestingBroken = false) :
    settings.document (ofLexed (.ofLines settings.segmentProperties texts)) ≠ [] := by
  rw [layout_eq_outline intact]
  have run := Lexed.run_ofLines settings.segmentProperties texts
  rw [((intact_iff _ _).mp intact).2] at run
  have complete := Outline.declaration_of_run run
  have count : (Lexed.ofLines settings.segmentProperties texts).lines.length = texts.length :=
    Nesting.length_classify settings.segmentProperties {} 0 texts
  generalize (Lexed.ofLines settings.segmentProperties texts).lines = lines at complete count ⊢
  rcases eq_nil_or_concat lines with rfl | ⟨front, last, rfl⟩
  · exact absurd (length_eq_zero_iff.mp count.symm) occupied
  · rw [concat_eq_append, foldl_append] at complete ⊢
    exact settings.outline_add_ne_nil complete

end Layouts

section Concatenation

variable {settings : FormatSettings} {text : Text}
  (intact : (Document.ofText settings.segmentProperties text).nestingBroken = false)
include intact

-- The empty text has no lines, but it is cut into one piece.  Nothing changes if that piece
-- is taken for a line: a single empty line is written as the empty text.
theorem Document.intact_splitBreaks :
    (ofLexed (.ofLines settings.segmentProperties (splitBreaks text))).nestingBroken = false := by
  by_cases empty : text = []
  · subst empty
    rfl
  · rwa [ofText, Lexed.ofText_eq, lines_of_ne_nil empty] at intact

theorem FormatSettings.formatText_eq_splitBreaks : settings.formatText text =
    joinLines (settings.document
      (.ofLexed (.ofLines settings.segmentProperties (splitBreaks text)))) := by
  by_cases empty : text = []
  · subst empty
    rfl
  · rw [settings.formatText_of_intact intact, Document.ofText, Lexed.ofText_eq,
      lines_of_ne_nil empty]

end Concatenation

/-- Intact texts written one after the other are intact, and each is formatted by itself. -/
theorem FormatSettings.formatText_append (settings : FormatSettings) {first second : Text}
    (plain : '\r' ∉ first)
    (intact₁ : (Document.ofText settings.segmentProperties first).nestingBroken = false)
    (intact₂ : (Document.ofText settings.segmentProperties second).nestingBroken = false) :
    (Document.ofText settings.segmentProperties (first ++ '\n' :: second)).nestingBroken = false ∧
      settings.formatText (first ++ '\n' :: second) =
        settings.formatText first ++ '\n' :: settings.formatText second := by
  have split := splitBreaks_append_feed plain second
  have solid₁ := Document.intact_splitBreaks intact₁
  have solid₂ := Document.intact_splitBreaks intact₂
  have intact :
      (Document.ofText settings.segmentProperties (first ++ '\n' :: second)).nestingBroken =
        false := by
    rw [Document.ofText, Lexed.ofText_eq, lines_of_ne_nil (by simp), split]
    exact Document.intact_append _ _ _ solid₁ solid₂
  refine ⟨intact, ?_⟩
  rw [formatText_eq_splitBreaks intact, formatText_eq_splitBreaks intact₁,
    formatText_eq_splitBreaks intact₂, split, Document.layout_append solid₁ solid₂]
  apply joinLines_append
  · exact Document.layout_ne_nil (splitBreaks_ne_nil first) solid₁
  · exact Document.layout_ne_nil (splitBreaks_ne_nil second) solid₂

/-- A view with a comment behind it. -/
def remarkedView : Text :=
  unsortedView ++ "\n # kept".toList

/-- An explore with a comment before it. -/
def remarkedExplore : Text :=
  "# apart\nexplore: e \x7b\n\x7d".toList

theorem FormatSettings.formatText_append_remarked : '\r' ∉ remarkedView ∧
    (Document.ofText ({} : FormatSettings).segmentProperties remarkedView).nestingBroken = false ∧
    (Document.ofText ({} : FormatSettings).segmentProperties remarkedExplore).nestingBroken =
      false ∧
    (Document.ofText ({} : FormatSettings).segmentProperties
      (remarkedView ++ '\n' :: remarkedExplore)).nestingBroken = false ∧
    ({} : FormatSettings).formatText (remarkedView ++ '\n' :: remarkedExplore) =
      ({} : FormatSettings).formatText remarkedView ++
        '\n' :: ({} : FormatSettings).formatText remarkedExplore := by
  have plain : '\r' ∉ remarkedView := by decide +kernel
  have intact₁ : (Document.ofText ({} : FormatSettings).segmentProperties
      remarkedView).nestingBroken = false := by
    decide +kernel
  have intact₂ : (Document.ofText ({} : FormatSettings).segmentProperties
      remarkedExplore).nestingBroken = false := by
    decide +kernel
  exact ⟨plain, intact₁, intact₂, formatText_append {} plain intact₁ intact₂⟩

end LookML
