import LookML.Proofs.Fidelity

/-!
# Documents of truncated texts

A text may end too early.  What its document holds then is what the document of the whole text
holds above the cut: the same declarations in the same order, in each of them the same fields,
and whatever ends above the cut is the same in every part.  Lines below the cut may only end
what is open there and begin something new, and neither changes what was begun before.
-/

namespace LookML

open Text List

/-- A field begun above a line, and what is left of it when the text is cut there. -/
structure Field.CutAt (line : Nat) (field left : Field) : Prop where
  kind : left.kind = field.kind
  name : left.name = field.name
  startLine : left.startLine = field.startLine
  comments : left.comments = field.comments
  complete : ∀ last ∈ field.endLine, last < line → left = field

/-- A declaration begun above a line, and what is left of it when the text is cut there. -/
structure Declaration.CutAt (line : Nat) (declaration left : Declaration) : Prop where
  typeName : left.typeName = declaration.typeName
  name : left.name = declaration.name
  header : left.header = declaration.header
  fields : List.Forall₂ (Field.CutAt line)
    (declaration.fields.filter fun field => field.startLine < line) left.fields
  complete : ∀ last ∈ declaration.endLine, last < line → left = declaration

/-- A document, and what is left of it when its text is cut at a line. -/
structure Document.CutAt (line : Nat) (document left : Document) : Prop where
  declarations : List.Forall₂ (Declaration.CutAt line)
    (document.declarations.filter fun declaration => declaration.startLine < line) left.declarations
  complete : ∀ declaration ∈ document.declarations, ∀ last ∈ declaration.endLine, last < line →
    declaration ∈ left.declarations

section Begun

variable {α β : Type} {begun : α → Bool} {related : α → β → Prop} {items : List α} {left : List β}

/-- Something new does not count. -/
theorem forall₂_filter_snoc_new {item : α} (new : begun item = false)
    (all : Forall₂ related (items.filter begun) left) :
    Forall₂ related ((items ++ [item]).filter begun) left := by
  rw [filter_append, filter_singleton, new]
  simpa using all

/-- The last thing may change as long as it stays related to what it was related to. -/
theorem forall₂_filter_snoc_change {item other : α} (same : begun other = begun item)
    (kept : ∀ rest, related item rest → related other rest)
    (all : Forall₂ related ((items ++ [item]).filter begun) left) :
    Forall₂ related ((items ++ [other]).filter begun) left := by
  induction items generalizing left with
  | nil =>
    simp only [nil_append, filter_singleton, same] at all ⊢
    cases counts : begun item with
    | false => simpa [counts] using all
    | true =>
      simp only [counts, cond_true] at all ⊢
      cases all with
      | cons holds rest => exact .cons (kept _ holds) rest
  | cons first items ih =>
    simp only [cons_append, filter_cons] at all ⊢
    split
    next counts =>
      rw [if_pos counts] at all
      cases all with
      | cons holds rest => exact .cons holds (ih rest)
    next counts =>
      rw [if_neg counts] at all
      exact ih all

end Begun

section Fields

variable {cut : Nat} {line : Line} {left : Field}

theorem Field.CutAt.rfl {field : Field} : field.CutAt cut field :=
  ⟨Eq.refl _, Eq.refl _, Eq.refl _, Eq.refl _, fun _ _ _ => Eq.refl _⟩

/-- What is below the cut is not looked at: more lines, and a closing line. -/
theorem OpenField.cutAt_close {field more : OpenField} {parent : Enclosing} {closing : Option Line}
    (cutAt : (field.close parent none).CutAt cut left)
    (comments : more.comments = field.comments) (opening : more.opening = field.opening)
    (below : ∀ line ∈ closing, cut ≤ line.number) : (more.close parent closing).CutAt cut left where
  kind := cutAt.kind.trans
    (by rw [Field.kind, Field.kind, Field.typeName, Field.typeName, close, close, opening])
  name := cutAt.name.trans (by rw [Field.name, Field.name, close, close, opening])
  startLine := cutAt.startLine.trans
    (by rw [Field.startLine, Field.startLine, close, close, opening])
  comments := cutAt.comments.trans comments.symm
  complete := by
    intro last member above
    obtain ⟨line, isClosing, rfl⟩ := Option.map_eq_some_iff.mp member
    exact absurd above (Nat.not_lt.mpr (below line isClosing))

end Fields

section Declarations

variable {cut : Nat} {line : Line} {left : Declaration} (below : cut ≤ line.number)

theorem Declaration.CutAt.of_begun {declaration : Declaration}
    (begun : ∀ field ∈ declaration.fields, field.startLine < cut) :
    declaration.CutAt cut declaration where
  typeName := rfl
  name := rfl
  header := rfl
  fields := by
    rw [filter_eq_self.mpr fun field member => decide_eq_true (begun field member)]
    exact forall₂_same.mpr fun field _ => .rfl
  complete := fun _ _ _ => rfl

namespace OpenDeclaration

/-- What a declaration is as far as it goes, whatever becomes of it. -/
def reached : OpenDeclaration ⊕ Declaration → Declaration
  | .inl more => more.abandon
  | .inr complete => complete

theorem header_reached (declaration : OpenDeclaration) (line : Line) :
    (reached (declaration.add line)).header = declaration.header := by
  have step := declaration.step_add line
  generalize declaration.add line = result at step
  cases step <;> rfl

include below in
/-- A line below the cut changes nothing above it. -/
theorem cutAt_add {declaration : OpenDeclaration} (cutAt : declaration.abandon.CutAt cut left) :
    (reached (declaration.add line)).CutAt cut left := by
  -- Only the fields have to be followed: an open declaration has no end, and the end of a
  -- complete one is this line.
  have fields (result : Declaration) (header : result.header = declaration.header)
      (footer : ∀ last ∈ result.footer, last = line)
      (kept : Forall₂ (Field.CutAt cut)
        (result.fields.filter fun field => field.startLine < cut) left.fields) :
      result.CutAt cut left := by
    refine ⟨?_, ?_, cutAt.header.trans header.symm, kept, ?_⟩
    · rw [cutAt.typeName, Declaration.typeName, Declaration.typeName, header]
      rfl
    · rw [cutAt.name, Declaration.name, Declaration.name, header]
      rfl
    · intro last member above
      obtain ⟨brace, isFooter, rfl⟩ := Option.map_eq_some_iff.mp member
      rw [footer brace isFooter] at above
      exact absurd above (Nat.not_lt.mpr below)
  have before := cutAt.fields
  have step := declaration.step_add line
  generalize declaration.add line = result at step
  cases step with
  | @endsField field open_ =>
    apply fields _ rfl (fun _ member => by cases member)
    simp only [reached, abandon, open_, Option.toList_some, map_singleton,
      Option.toList_none, map_nil, append_nil] at before ⊢
    refine forall₂_filter_snoc_change ?_ ?_ before
    · rfl
    intro rest holds
    exact OpenField.cutAt_close holds rfl rfl fun _ isLine => Option.some.inj isLine ▸ below
  | @inField field open_ =>
    apply fields _ rfl (fun _ member => by cases member)
    simp only [reached, abandon, open_, Option.toList_some, map_singleton] at before ⊢
    refine forall₂_filter_snoc_change ?_ ?_ before
    · rfl
    intro rest holds
    exact OpenField.cutAt_close holds rfl rfl fun _ isLine => by cases isLine
  | kept | waits =>
    apply fields _ rfl (fun _ member => by cases member)
    exact before
  | ends none_ =>
    apply fields _ rfl (fun last member => (Option.some.inj member).symm)
    simp only [abandon, none_, Option.toList_none, map_nil, append_nil] at before
    exact before
  | skipped => exact cutAt
  | startsField none_ =>
    apply fields _ rfl (fun _ member => by cases member)
    simp only [abandon, none_, Option.toList_none, map_nil, append_nil] at before
    exact forall₂_filter_snoc_new (decide_eq_false (Nat.not_lt.mpr below)) before

end OpenDeclaration

end Declarations

section Outlines

variable {cut : Nat} {line : Line} {left : List Declaration}

namespace Outline

/-- What a line does to the declarations: the open one goes on, a new one begins, or nothing. -/
theorem begun_add (outline : Outline) (line : Line) :
    (∃ declaration : OpenDeclaration,
        outline.begun = outline.declarations ++ [declaration.abandon] ∧
        (outline.add line).begun =
          outline.declarations ++ [OpenDeclaration.reached (declaration.add line)]) ∨
      (∃ declaration : Declaration, declaration.header = line ∧
        (outline.add line).begun = outline.begun ++ [declaration]) ∨
      (outline.add line).begun = outline.begun := by
  have step := outline.step_add line
  generalize outline.add line = next at step
  have settled := outline.declarations_settled
  cases step with
  | @within declaration more open_ result =>
    refine .inl ⟨declaration, by simp [begun, open_], ?_⟩
    rw [result]
    rfl
  | @completes declaration complete open_ result =>
    refine .inl ⟨declaration, by simp [begun, open_], ?_⟩
    rw [result]
    simp [begun, declarations, Item.declaration?, OpenDeclaration.reached]
  | opens none_ =>
    refine .inr (.inl ⟨OpenDeclaration.abandon { header := line }, rfl, ?_⟩)
    simp [begun, declarations, none_, settled]
  | inline none_ =>
    refine .inr (.inl ⟨{ header := line, footer := some line }, rfl, ?_⟩)
    simp [begun, declarations, none_, settled, Item.declaration?]
  | loose => exact .inr (.inr rfl)

/-- What a cut leaves of the declarations begun above it. -/
def CutAt (cut : Nat) (outline : Outline) (left : List Declaration) : Prop :=
  List.Forall₂ (Declaration.CutAt cut)
    (outline.begun.filter fun declaration => declaration.startLine < cut) left

theorem CutAt.add {outline : Outline} (cutAt : outline.CutAt cut left) (below : cut ≤ line.number) :
    (outline.add line).CutAt cut left := by
  unfold CutAt at cutAt ⊢
  rcases outline.begun_add line with
    ⟨declaration, before, after⟩ | ⟨declaration, header, after⟩ | same
  · rw [before] at cutAt
    rw [after]
    refine forall₂_filter_snoc_change ?_ ?_ cutAt
    · rw [Declaration.startLine, OpenDeclaration.header_reached]
      rfl
    · intro rest holds
      exact OpenDeclaration.cutAt_add below holds
  · rw [after]
    refine forall₂_filter_snoc_new ?_ cutAt
    rw [Declaration.startLine, header]
    exact decide_eq_false (Nat.not_lt.mpr below)
  · rwa [same]

theorem CutAt.foldl {outline : Outline} {lines : List Line} (cutAt : outline.CutAt cut left)
    (below : ∀ line ∈ lines, cut ≤ line.number) :
    (lines.foldl Outline.add outline).CutAt cut left := by
  induction lines generalizing outline with
  | nil => exact cutAt
  | cons line lines ih =>
    exact ih (cutAt.add (below line mem_cons_self)) fun other member =>
      below other (mem_cons_of_mem _ member)

end Outline

end Outlines

section Texts

variable {properties : List Text} {texts : List Text} {cut : Nat}

theorem Document.startLine_le_endLine {declaration : Declaration} {last : Nat}
    (member : declaration ∈ (ofLexed (.ofLines properties texts)).declarations)
    (ends : last ∈ declaration.endLine) : declaration.startLine ≤ last := by
  obtain ⟨stretch, inside, holds⟩ :=
    exists_stretch .refl (Lexed.run_ofLines properties texts) (mem_items member)
  have ascending := (Lexed.ascending_ofLines properties texts).sublist inside.sublist
  obtain ⟨rest, begins⟩ := Declaration.Holds.header holds
  exact (Declaration.Holds.bounds holds ascending declaration.header (by simp [begins])).2 last ends

/-- Lines above a cut begin nothing below it. -/
theorem Document.begun_ofLines
    (above : ∀ line ∈ (Lexed.ofLines properties texts).lines, line.number < cut) :
    ∀ declaration ∈ (ofLexed (.ofLines properties texts)).declarations,
      declaration.startLine < cut ∧
      ∀ field ∈ declaration.fields, field.startLine < cut := by
  intro declaration member
  obtain ⟨stretch, inside, holds⟩ :=
    exists_stretch .refl (Lexed.run_ofLines properties texts) (mem_items member)
  have inLines {line : Line} (inDeclaration : line ∈ declaration.lines) : line.number < cut :=
    above line (inside.subset (Item.Holds.subset holds line inDeclaration))
  constructor
  · apply inLines
    simp [Declaration.lines]
  · intro field isField
    exact inLines (Declaration.opening_mem_lines isField)

theorem Lexed.lines_take (properties texts : List Text) (cut : Nat) :
    ∃ rest, (ofLines properties texts).lines = (ofLines properties (texts.take cut)).lines ++ rest ∧
      (∀ line ∈ (ofLines properties (texts.take cut)).lines, line.number < cut) ∧
      ∀ line ∈ rest, cut ≤ line.number := by
  have split := Nesting.classify_append properties {} 0 (texts.take cut) (texts.drop cut)
  rw [take_append_drop] at split
  refine ⟨_, split, ?_, ?_⟩
  · intro line member
    have number := mem_map_of_mem (f := Line.number) member
    rw [ofLines, Nesting.number_classify, mem_range'_1, length_take] at number
    omega
  · intro line member
    have number := mem_map_of_mem (f := Line.number) member
    rw [Nesting.number_classify, mem_range'_1, length_take, length_drop] at number
    omega

/-- The document of the first lines is what a cut leaves of the document of all. -/
theorem Document.cutAt_ofLines (properties texts : List Text) (cut : Nat) :
    (ofLexed (.ofLines properties texts)).CutAt cut
      (ofLexed (.ofLines properties (texts.take cut))) := by
  obtain ⟨rest, whole, above, below⟩ := Lexed.lines_take properties texts cut
  have begun := begun_ofLines above
  have start : ((Lexed.ofLines properties (texts.take cut)).lines.foldl Outline.add {}).CutAt cut
      (ofLexed (.ofLines properties (texts.take cut))).declarations := by
    rw [Outline.CutAt, ← Outline.declarations_finish]
    have all := filter_eq_self.mpr fun declaration member =>
      decide_eq_true (begun declaration member).1
    rw [declarations, ofLexed] at all ⊢
    rw [all]
    exact forall₂_same.mpr fun declaration member => .of_begun (begun declaration member).2
  have run := start.foldl below
  rw [Outline.CutAt, ← foldl_append, ← whole, ← Outline.declarations_finish] at run
  refine ⟨run, ?_⟩
  intro declaration member last ends aboveCut
  have isBegun : declaration.startLine < cut :=
    Nat.lt_of_le_of_lt (startLine_le_endLine member ends) aboveCut
  obtain ⟨left, inLeft, cutAt⟩ := exists_of_forall₂ run
    (mem_filter.mpr ⟨member, decide_eq_true isBegun⟩)
  rwa [cutAt.complete last ends aboveCut] at inLeft

end Texts

/-- The document of the first lines of a text holds what is begun in them, and what is ended
in them it holds as it is. -/
theorem Document.cutAt_take (properties : List Text) {text : Text} (plain : '\r' ∉ text)
    (cut : Nat) :
    (ofText properties text).CutAt cut (ofText properties (joinLines (text.lines.take cut))) := by
  have lines := cutAt_ofLines properties text.lines cut
  by_cases blank : text.lines.take cut = [[]]
  · -- A single empty line is written as the empty text: neither declares anything.
    rw [blank] at lines ⊢
    exact ⟨lines.declarations, lines.complete⟩
  · have same : (joinLines (text.lines.take cut)).lines = text.lines.take cut :=
      lines_joinLines
        (fun line member => unbroken_lines plain line (List.mem_of_mem_take member)) blank
    rw [ofText, ofText, Lexed.ofText_eq, Lexed.ofText_eq, same]
    exact lines

/-- A view cut in the middle of its second field. -/
theorem Document.cutAt_take_unsortedView : '\r' ∉ unsortedView ∧
    (ofText ({} : FormatSettings).segmentProperties unsortedView).CutAt 7
      (ofText ({} : FormatSettings).segmentProperties (joinLines (unsortedView.lines.take 7))) := by
  have plain : '\r' ∉ unsortedView := by decide +kernel
  exact ⟨plain, cutAt_take _ plain 7⟩

end LookML
