import LookML.Proofs.Building

/-!
# Lines under other labels

Building a document looks at the depth of a line and at what it is, but not at the values of
segments.  Its number matters only beside other numbers, and its text only if it may be a section
marker.  So lines that are labelled with other numbers, texts and values of segments in the same
order are built into the same document, with the new labels in it.
-/

namespace LookML

open Text List

/-- Shapes that differ at most in the value of a segment. -/
inductive Shape.SameFrame : Shape → Shape → Prop where
  | refl (shape : Shape) : SameFrame shape shape
  | segmentOpen (key value other : Text) :
      SameFrame (.segmentOpen key value) (.segmentOpen key other)
  | segmentInline (key value other : Text) :
      SameFrame (.segmentInline key value) (.segmentInline key other)

namespace Shape.SameFrame

variable {shape other : Shape} (same : SameFrame shape other)
include same

theorem key? : other.key? = shape.key? := by
  cases same <;> rfl

theorem name? : other.name? = shape.name? := by
  cases same <;> rfl

theorem isLine {special : Shape} (noOpen : ∀ key value, special ≠ .segmentOpen key value)
    (noInline : ∀ key value, special ≠ .segmentInline key value) :
    other = special ↔ shape = special := by
  cases same with
  | refl => exact Iff.rfl
  | segmentOpen =>
    exact ⟨fun is => absurd is.symm (noOpen _ _), fun is => absurd is.symm (noOpen _ _)⟩
  | segmentInline =>
    exact ⟨fun is => absurd is.symm (noInline _ _), fun is => absurd is.symm (noInline _ _)⟩

end Shape.SameFrame

/-- Shapes that differ at most in the value of a segment or in the name of a block. -/
inductive Shape.SameRole : Shape → Shape → Prop where
  | frame {shape other : Shape} : shape.SameFrame other → SameRole shape other
  | named (key : Text) {name other : Text} : name ≠ [] → other ≠ [] →
      SameRole (.blockOpen (some key) (some name)) (.blockOpen (some key) (some other))

/-- A change of labels that building does not notice. -/
structure Line.Relabels (relabel : Line → Line) : Prop where
  depth : ∀ line, (relabel line).depth = line.depth
  frame : ∀ line : Line, line.shape.SameFrame (relabel line).shape
  marker : ∀ line, line.shape = .comment → isMarker (relabel line).text = isMarker line.text
  order : ∀ line other, (relabel line).number < (relabel other).number ↔ line.number < other.number

/-- A change of labels and names that building does not notice.  Only blocks inside of others get
other names: the name of a declaration is written to its fields. -/
structure Line.Retitles (relabel : Line → Line) : Prop where
  depth : ∀ line, (relabel line).depth = line.depth
  role : ∀ line : Line, line.shape.SameRole (relabel line).shape
  top : ∀ line : Line, line.depth = 0 → (relabel line).shape.name? = line.shape.name?
  marker : ∀ line, line.shape = .comment → isMarker (relabel line).text = isMarker line.text
  order : ∀ line other, (relabel line).number < (relabel other).number ↔ line.number < other.number

theorem Line.Relabels.retitles {relabel : Line → Line} (relabels : Line.Relabels relabel) :
    Line.Retitles relabel where
  depth := relabels.depth
  role := fun line => .frame (relabels.frame line)
  top := fun line _ => (relabels.frame line).name?
  marker := relabels.marker
  order := relabels.order

/-- The line under another number. -/
def Line.renumber (number : Nat → Nat) (line : Line) : Line :=
  { line with number := number line.number }

theorem Line.relabels_renumber {number : Nat → Nat}
    (order : ∀ first second, number first < number second ↔ first < second) :
    Line.Relabels (renumber number) where
  depth := fun _ => rfl
  frame := fun line => .refl line.shape
  marker := fun _ _ => rfl
  order := fun line other => order line.number other.number

section Labels

variable (relabel : Line → Line)

/-- A segment with its lines labelled anew.  Its value is that of its opening line. -/
def Segment.map (segment : Segment) : Segment :=
  { segment with
    value :=
      if (relabel segment.opening).shape = segment.opening.shape then segment.value
      else (relabel segment.opening).shape.value?.getD segment.value
    opening := relabel segment.opening
    body := segment.body.map relabel
    closing := segment.closing.map relabel }

/-- An entry with its lines labelled anew. -/
def Entry.map : Entry → Entry
  | .single line => .single (relabel line)
  | .grouped segment => .grouped (segment.map relabel)

/-- A field with its lines labelled anew. -/
def Field.map (field : Field) : Field where
  parent := field.parent
  comments := field.comments.map relabel
  opening := relabel field.opening
  inner := field.inner.map relabel
  closing := field.closing.map relabel

/-- A declaration with its lines labelled anew. -/
def Declaration.map (declaration : Declaration) : Declaration where
  header := relabel declaration.header
  footer := declaration.footer.map relabel
  content := declaration.content.map relabel
  fields := declaration.fields.map (Field.map relabel)
  trailing := declaration.trailing.map relabel

/-- A part of a document with its lines labelled anew. -/
def Item.map : Item → Item
  | .loose lines => .loose (lines.map relabel)
  | .declaration found => .declaration (found.map relabel)

/-- An open field with its lines labelled anew. -/
def OpenField.map (field : OpenField) : OpenField where
  comments := field.comments.map relabel
  opening := relabel field.opening
  inner := field.inner.map relabel

/-- An open declaration with its lines labelled anew. -/
def OpenDeclaration.map (declaration : OpenDeclaration) : OpenDeclaration where
  header := relabel declaration.header
  content := declaration.content.map relabel
  fields := declaration.fields.map (Field.map relabel)
  waiting := declaration.waiting.map relabel
  field := declaration.field.map (OpenField.map relabel)

/-- An outline with its lines labelled anew. -/
def Outline.map (outline : Outline) : Outline where
  items := outline.items.map (Item.map relabel)
  loose := outline.loose.map relabel
  declaration := outline.declaration.map (OpenDeclaration.map relabel)

end Labels

variable {relabel : Line → Line}

theorem Field.lines_map (field : Field) :
    (field.map relabel).lines = field.lines.map relabel := by
  cases closing : field.closing <;> simp [lines, map, closing]

/-- The last line of a field is the last one under its new label. -/
theorem Field.exists_lastLine_map (relabel : Line → Line) (field : Field) :
    ∃ last, field.lastLine = last.number ∧
      (field.map relabel).lastLine = (relabel last).number := by
  have occupied : field.lines ≠ [] := by simp [lines]
  obtain ⟨last, ends⟩ := Option.isSome_iff_exists.mp (getLast?_isSome.mpr occupied)
  refine ⟨last, ?_, ?_⟩
  · rw [lastLine, ends]
    rfl
  · rw [lastLine, lines_map, getLast?_map, ends]
    rfl

namespace Line.Retitles

variable {declaration : OpenDeclaration}

variable (retitles : Line.Retitles relabel)
include retitles

theorem isLine {special : Shape} (noOpen : ∀ key value, special ≠ .segmentOpen key value)
    (noInline : ∀ key value, special ≠ .segmentInline key value)
    (noBlock : ∀ key name, special ≠ .blockOpen key name) (line : Line) :
    (relabel line).shape = special ↔ line.shape = special := by
  have same := retitles.role line
  generalize line.shape = shape, (relabel line).shape = other at same
  cases same with
  | frame same => exact same.isLine noOpen noInline
  | named =>
    exact ⟨fun is => absurd is.symm (noBlock _ _), fun is => absurd is.symm (noBlock _ _)⟩

theorem isClose (line : Line) : (relabel line).shape = .blockClose ↔ line.shape = .blockClose :=
  retitles.isLine (by simp) (by simp) (by simp) line

theorem isComment (line : Line) : (relabel line).shape = .comment ↔ line.shape = .comment :=
  retitles.isLine (by simp) (by simp) (by simp) line

theorem isBlank (line : Line) : (relabel line).shape = .blank ↔ line.shape = .blank :=
  retitles.isLine (by simp) (by simp) (by simp) line

theorem opensField (line : Line) :
    OpenDeclaration.opensField (relabel line) = OpenDeclaration.opensField line := by
  have same := retitles.role line
  unfold OpenDeclaration.opensField
  generalize line.shape = shape, (relabel line).shape = other at same
  cases same with
  | frame same => cases same <;> rfl
  | named key named again =>
    dsimp only
    rw [isEmpty_eq_false_iff.mpr named, isEmpty_eq_false_iff.mpr again]

theorem isClosedBy (field : OpenField) (line : Line) :
    (field.map relabel).isClosedBy (relabel line) = field.isClosedBy line := by
  simp only [OpenField.isClosedBy, OpenField.map, retitles.isClose, retitles.depth]

theorem parent (top : declaration.header.depth = 0) :
    (declaration.map relabel).parent = declaration.parent := by
  have key : (relabel declaration.header).shape.key? = declaration.header.shape.key? := by
    have same := retitles.role declaration.header
    generalize declaration.header.shape = shape, (relabel declaration.header).shape = other at same
    cases same with
    | frame same => exact same.key?
    | named => rfl
  simp only [OpenDeclaration.parent, OpenDeclaration.map, key, retitles.top _ top, retitles.depth]

theorem childDepth (declaration : OpenDeclaration) :
    (declaration.map relabel).childDepth = declaration.childDepth := by
  simp only [OpenDeclaration.childDepth, OpenDeclaration.map, retitles.depth]

theorem isTailLine (declaration : OpenDeclaration) (field : Field) (line : Line) :
    (declaration.map relabel).isTailLine (field.map relabel).lastLine (relabel line) =
      declaration.isTailLine field.lastLine line := by
  obtain ⟨last, here, there⟩ := field.exists_lastLine_map relabel
  simp only [OpenDeclaration.isTailLine, retitles.childDepth, retitles.isComment, retitles.isBlank,
    retitles.depth, here, there, retitles.order]

theorem cutTail (declaration : OpenDeclaration) :
    (declaration.map relabel).cutTail =
      (declaration.cutTail.1.map relabel, declaration.cutTail.2.map relabel) := by
  have isTail (field : Field) :
      (declaration.map relabel).isTailLine (field.map relabel).lastLine ∘ relabel =
        declaration.isTailLine field.lastLine :=
    funext (retitles.isTailLine declaration field)
  have isComment : (fun line : Line => decide (line.shape = .comment)) ∘ relabel =
      fun line => decide (line.shape = .comment) :=
    funext fun line => by simp [retitles.isComment]
  have isBlank : (fun line : Line => decide (line.shape = .blank)) ∘ relabel =
      fun line => decide (line.shape = .blank) :=
    funext fun line => by simp [retitles.isBlank]
  have fields : (declaration.map relabel).fields = declaration.fields.map (Field.map relabel) := rfl
  have content : (declaration.map relabel).content = declaration.content.map relabel := rfl
  unfold OpenDeclaration.cutTail
  rw [fields, getLast?_map, content]
  cases last : declaration.fields.getLast? with
  | none => rfl
  | some field =>
    simp only [Option.map_some, ← map_reverse, takeWhile_map, dropWhile_map,
      any_map, isTail, isComment, isBlank]
    split <;> rfl

theorem close (declaration : OpenDeclaration) (footer : Line) :
    (declaration.map relabel).close (relabel footer) = (declaration.close footer).map relabel := by
  rw [OpenDeclaration.close, retitles.cutTail]
  simp [OpenDeclaration.close, OpenDeclaration.map, Declaration.map]

theorem abandon (top : declaration.header.depth = 0) :
    (declaration.map relabel).abandon = declaration.abandon.map relabel := by
  have parent := retitles.parent top
  unfold OpenDeclaration.abandon
  rw [parent]
  cases open_ : declaration.field <;>
    simp [OpenDeclaration.map, Declaration.map, open_, OpenField.close, OpenField.map, Field.map]

omit retitles in
theorem keep (declaration : OpenDeclaration) (line : Line) :
    (declaration.map relabel).keep (relabel line) = (declaration.keep line).map relabel := by
  simp [OpenDeclaration.keep, OpenDeclaration.map]

theorem add (top : declaration.header.depth = 0) (line : Line) :
    (declaration.map relabel).add (relabel line) =
      Sum.map (OpenDeclaration.map relabel) (Declaration.map relabel) (declaration.add line) := by
  have field : (declaration.map relabel).field =
      declaration.field.map (OpenField.map relabel) := rfl
  have parent := retitles.parent top
  unfold OpenDeclaration.add
  rw [field, parent]
  cases open_ : declaration.field with
  | some field =>
    simp only [Option.map_some, retitles.isClosedBy]
    split
    · simp [OpenDeclaration.map, OpenField.close, Field.map, OpenField.map]
    · simp [OpenDeclaration.map, OpenField.map]
  | none =>
    simp only [Option.map_none, retitles.depth, retitles.isClose, retitles.isComment,
      retitles.childDepth, retitles.opensField, keep, retitles.close]
    split
    · rfl
    split
    · rfl
    split
    next comment =>
      rw [retitles.marker line comment]
      split
      · rfl
      · simp [OpenDeclaration.map, open_]
    next =>
      split
      · simp [OpenDeclaration.map, OpenField.map]
      · rfl

theorem next (level : Level) (line : Line) :
    level.next (relabel line).shape = level.next line.shape := by
  have role := retitles.role line
  generalize line.shape = shape, (relabel line).shape = other at role
  rcases role with same | _
  · cases same <;> rfl
  · rfl

theorem topLevelValues (lines : List Line) (key : Text) :
    Document.topLevelValues (lines.map relabel) key = Document.topLevelValues lines key := by
  rw [Document.topLevelValues, Document.topLevelValues, filterMap_map]
  refine congrArg (List.filterMap · lines) (funext fun line => ?_)
  have role := retitles.role line
  rw [Function.comp, retitles.depth]
  generalize line.shape = shape, (relabel line).shape = other at role
  rcases role with same | _
  · cases same <;> rfl
  · rfl

variable (numbered : ∀ line, (relabel line).number = line.number)
include numbered

/-- Lines that can be read under new labels where they are read are read so in a row. -/
theorem classify {properties : List Text} {nesting other : Nesting} (number : Nat)
    (texts : List Text) (same : other.level = nesting.level)
    (reread : ∀ line ∈ nesting.classify properties number texts, ∀ level,
      line.ReadAt properties level → (relabel line).ReadAt properties level) :
    other.classify properties number
        ((nesting.classify properties number texts).map fun line => (relabel line).text) =
      (nesting.classify properties number texts).map relabel := by
  induction texts generalizing nesting other number with
  | nil => rfl
  | cons text texts ih =>
    rw [Nesting.classify] at reread ⊢
    obtain ⟨here, later⟩ := forall_mem_cons.mp reread
    let line := nesting.line properties number text
    have read := here _ (nesting.readAt_line properties number text)
    have again := other.readAt_line properties number (relabel line).text
    have written : other.line properties number (relabel line).text = relabel line := by
      have shape := again.shape
      rw [same] at again shape
      exact mk.injEq .. |>.mpr
        ⟨(numbered line).symm, rfl, again.depth.trans read.depth.symm, shape.trans read.shape.symm⟩
    have level : (other.advance (relabel line)).level = (nesting.advance line).level := by
      rw [Nesting.level_advance, Nesting.level_advance, retitles.next, same]
    rw [map_cons, map_cons, Nesting.classify, written, ih (number + 1) level later]

theorem lines_ofText {properties : List Text} {text again : Text}
    (written : again.lines =
      (Lexed.ofText properties text).lines.map fun line => (relabel line).text)
    (reread : ∀ line ∈ (Lexed.ofText properties text).lines, ∀ level,
      line.ReadAt properties level → (relabel line).ReadAt properties level) :
    (Lexed.ofText properties again).lines = (Lexed.ofText properties text).lines.map relabel := by
  rw [Lexed.ofText, written]
  exact retitles.classify numbered 0 text.lines rfl reread

end Line.Retitles

section Headers

variable (relabels : Line.Relabels relabel)
include relabels

theorem Field.name_map (field : Field) : (field.map relabel).name = field.name :=
  congrArg (Option.getD · []) (relabels.frame field.opening).name?

theorem Field.kind_map (field : Field) : (field.map relabel).kind = field.kind := by
  have type : (field.map relabel).typeName = field.typeName :=
    congrArg (Option.getD · []) (relabels.frame field.opening).key?
  rw [kind, type, kind]

theorem Declaration.name_map (declaration : Declaration) :
    (declaration.map relabel).name = declaration.name :=
  congrArg (Option.getD · []) (relabels.frame declaration.header).name?

theorem Declaration.kind_map (declaration : Declaration) :
    (declaration.map relabel).kind = declaration.kind := by
  have type : (declaration.map relabel).typeName = declaration.typeName :=
    congrArg (Option.getD · []) (relabels.frame declaration.header).key?
  rw [kind, type, kind]

end Headers

namespace Outline

variable {outline : Outline}

theorem settled_map (relabel : Line → Line) (outline : Outline) :
    (outline.map relabel).settled = outline.settled.map (Item.map relabel) := by
  unfold settled
  rw [map]
  dsimp only
  rw [isEmpty_map]
  split
  · rfl
  · simp [Item.map]

/-- Whether the header of the declaration that is open stands outside of all blocks. -/
def IsTop (outline : Outline) : Prop :=
  ∀ declaration ∈ outline.declaration, declaration.header.depth = 0

theorem isTop_empty : IsTop {} :=
  fun _ member => nomatch member

theorem IsTop.add (top : outline.IsTop) (line : Line) : (outline.add line).IsTop := by
  have step := outline.step_add line
  generalize outline.add line = next at step
  intro candidate member
  cases step with
  | @within before more open_ added =>
    cases member
    have header : candidate.header = before.header := by
      have step := before.step_add line
      rw [added] at step
      cases step <;> rfl
    rw [header]
    exact top before open_
  | opens _ isTop _ =>
    cases member
    exact isTop
  | completes | inline => cases member
  | loose noDeclaration _ => exact top candidate member

variable (retitles : Line.Retitles relabel)
include retitles

theorem add_map (top : outline.IsTop) (line : Line) :
    (outline.map relabel).add (relabel line) = (outline.add line).map relabel := by
  have declaration : (outline.map relabel).declaration =
      outline.declaration.map (OpenDeclaration.map relabel) := rfl
  have settled := outline.settled_map relabel
  have role := retitles.role line
  unfold add
  rw [declaration, settled, retitles.depth]
  cases open_ : outline.declaration with
  | some declaration =>
    simp only [Option.map_some, retitles.add (top declaration open_)]
    cases declaration.add line with
    | inl more => rfl
    | inr complete => simp [map, Item.map]
  | none =>
    simp only [Option.map_none]
    generalize shape : line.shape = old, (relabel line).shape = new at role
    split
    · rcases role with same | _
      · cases same with
        | refl =>
          split
          · simp [map, OpenDeclaration.map]
          · simp [map, Item.map, Declaration.map]
          · simp [map, open_]
        | segmentOpen | segmentInline => simp [map, open_]
      · simp [map, OpenDeclaration.map]
    · simp [map, open_]

/-- Lines taken in under new labels. -/
theorem foldl_map (top : outline.IsTop) (lines : List Line) :
    (lines.map relabel).foldl add (outline.map relabel) =
      (lines.foldl add outline).map relabel ∧ (lines.foldl add outline).IsTop := by
  induction lines generalizing outline with
  | nil => exact ⟨rfl, top⟩
  | cons line lines ih =>
    rw [map_cons, foldl_cons, add_map retitles top, foldl_cons]
    exact ih (top.add line)

theorem finish_map (top : outline.IsTop) :
    (outline.map relabel).finish = outline.finish.map (Item.map relabel) := by
  have declaration : (outline.map relabel).declaration =
      outline.declaration.map (OpenDeclaration.map relabel) := rfl
  have settled := outline.settled_map relabel
  unfold finish
  rw [declaration, settled]
  cases open_ : outline.declaration with
  | some declaration =>
    simp [map, retitles.abandon (top declaration open_), Item.map]
  | none => rfl

/-- The parts of a document under new labels. -/
theorem finish_foldl_map (lines : List Line) :
    ((lines.map relabel).foldl add {}).finish =
      (lines.foldl add {}).finish.map (Item.map relabel) := by
  obtain ⟨folded, top⟩ := foldl_map retitles isTop_empty lines
  exact (congrArg finish folded).trans (finish_map retitles top)

end Outline

theorem Segment.value_map {segment : Segment}
    (same : (relabel segment.opening).shape = segment.opening.shape) :
    (segment.map relabel).value = segment.value :=
  if_pos same

/-- A segment of which only the first line has been read. -/
theorem Segment.map_begun {line : Line} {value again : Text} (here : line.shape.value? = some value)
    (there : (relabel line).shape.value? = some again) (property : Text) (inline : Bool) :
    map relabel ⟨property, value, inline, line, [], none⟩ =
      ⟨property, again, inline, relabel line, [], none⟩ := by
  simp only [map, there, Option.getD_some, map_nil, Option.map_none]
  split
  next same =>
    rw [same, here] at there
    rw [Option.some.inj there]
  next => rfl

namespace Entry

variable (relabels : Line.Relabels relabel)
include relabels

theorem ofLine_map (line : Line) : ofLine (relabel line) = (ofLine line).map relabel := by
  have frame := relabels.frame line
  have begun {value again : Text} (here : line.shape.value? = some value)
      (there : (relabel line).shape.value? = some again) := Segment.map_begun here there
  unfold ofLine
  generalize old : line.shape = shape, new : (relabel line).shape = other at frame begun
  cases frame with
  | segmentOpen => rfl
  | segmentInline key value again =>
    exact congrArg grouped (begun rfl rfl key true).symm
  | refl =>
    split
    · exact congrArg grouped (begun rfl rfl _ true).symm
    · rfl

/-- Lines are grouped in the same way under new labels. -/
theorem groupFrom_map (pending : Option Segment) (lines : List Line) :
    groupFrom (pending.map (Segment.map relabel)) (lines.map relabel) =
      (groupFrom pending lines).map (map relabel) := by
  induction lines generalizing pending with
  | nil => cases pending <;> rfl
  | cons line lines ih =>
    have opened {key value again : Text} (here : line.shape = .segmentOpen key value)
        (there : (relabel line).shape = .segmentOpen key again) :
        groupFrom (some ⟨key, again, false, relabel line, [], none⟩) (lines.map relabel) =
          (groupFrom (some ⟨key, value, false, line, [], none⟩) lines).map (map relabel) := by
      rw [← ih (some _), Option.map_some,
        Segment.map_begun (by rw [here]; rfl) (by rw [there]; rfl)]
    have frame := relabels.frame line
    have alone := ofLine_map relabels line
    cases pending with
    | none =>
      simp only [Option.map_none, map_cons, groupFrom]
      generalize old : line.shape = shape, new : (relabel line).shape = other at frame opened
      cases frame with
      | segmentOpen => exact opened rfl rfl
      | segmentInline =>
        dsimp only
        rw [map_cons, alone, ← ih none]
        rfl
      | refl =>
        split
        · exact opened rfl rfl
        · rw [map_cons, alone, ← ih none]
          rfl
    | some segment =>
      simp only [Option.map_some, map_cons, groupFrom]
      generalize old : line.shape = shape, new : (relabel line).shape = other at frame opened
      cases frame with
      | segmentOpen => exact congrArg (List.cons _) (opened rfl rfl)
      | segmentInline =>
        dsimp only
        rw [map_cons, map_cons, alone, ← ih none]
        rfl
      | refl =>
        split
        · rw [← ih (some _)]
          simp [Segment.map]
        · rw [map_cons, ← ih none]
          rfl
        · exact congrArg (List.cons _) (opened rfl rfl)
        · rw [map_cons, map_cons, alone, ← ih none]
          rfl

theorem group_map (lines : List Line) :
    group (lines.map relabel) = (group lines).map (map relabel) :=
  groupFrom_map relabels none lines

theorem closing?_map (depth : Nat) (entry : Entry) :
    (entry.map relabel).closing? depth = (entry.closing? depth).map relabel := by
  cases entry with
  | grouped segment => rfl
  | single line =>
    simp only [map, closing?, relabels.retitles.isClose, relabels.depth]
    split <;> rfl

theorem cutAtClose_map (depth : Nat) (entries : List Entry) :
    cutAtClose depth (entries.map (map relabel)) =
      ((cutAtClose depth entries).1.map (map relabel),
        (cutAtClose depth entries).2.1.map relabel,
        (cutAtClose depth entries).2.2.map (map relabel)) := by
  induction entries with
  | nil => rfl
  | cons entry entries ih =>
    rw [map_cons, cutAtClose, closing?_map relabels, cutAtClose]
    cases entry.closing? depth with
    | some line => rfl
    | none => simp only [Option.map_none, ih, map_cons]

end Entry

end LookML
