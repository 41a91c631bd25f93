import LookML.Proofs.Building
import Mathlib.Data.List.Forall2
import Mathlib.Data.List.Nodup

/-!
# Documents partition their lines

The parts of a document hold consecutive stretches of the source lines.  Within its
stretch a declaration hands every line to exactly one of its lists, in source order.
Only section markers among its direct children are left out, and blank lines between
its last field and the comments behind it.
-/

namespace LookML

open Text List

variable {field : Field} {stretch : List Line} {final : Level} {item : Item} {line : Line}

/-- A section marker among the direct children of a declaration. -/
def Line.IsSectionMark (line : Line) : Prop :=
  line.shape = .comment ∧ line.depth = 1 ∧ isMarker line.text = true

/-- A line that a document may leave out. -/
def Line.IsOmissible (line : Line) : Prop :=
  line.shape = .blank ∨ line.IsSectionMark

/-- The lines of a field with the comments above it. -/
def Field.allLines (field : Field) : List Line :=
  field.comments ++ field.lines

/-- The closing line of a declaration, unless that is its header. -/
def Declaration.closingLines (declaration : Declaration) : List Line :=
  match declaration.header.shape with
  | .inlineBlock .. => []
  | _ => declaration.footer.toList

/-- All lines of a declaration, list by list. -/
def Declaration.lines (declaration : Declaration) : List Line :=
  declaration.header :: declaration.content ++ declaration.fields.flatMap Field.allLines
    ++ declaration.trailing ++ declaration.closingLines

theorem Declaration.opening_mem_lines {declaration : Declaration} {field : Field}
    (isField : field ∈ declaration.fields) : field.opening ∈ declaration.lines := by
  have inField : field.opening ∈ declaration.fields.flatMap Field.allLines :=
    mem_flatMap.mpr ⟨field, isField, by simp [Field.allLines, Field.lines]⟩
  simp [lines, inField]

/-- All lines of a part of a document. -/
def Item.lines : Item → List Line
  | .loose lines => lines
  | .declaration found => found.lines

/-- All lines of a document, part by part. -/
def Document.lines (document : Document) : List Line :=
  document.items.flatMap Item.lines

/-- The lists that a part of a document consists of. -/
def Item.lists : Item → List (List Line)
  | .loose lines => [lines]
  | .declaration found =>
    [found.content, found.trailing]
      ++ found.fields.flatMap fun field => [field.comments, field.lines]

/-- Whether a line number lies between the header and the closing brace of a declaration and
in none of its fields. -/
def Declaration.Encloses (declaration : Declaration) (number : Nat) : Prop :=
  declaration.startLine < number ∧ (∀ last ∈ declaration.endLine, number < last) ∧
    ∀ field ∈ declaration.fields,
      number < field.startLine ∨ ∃ last ∈ field.endLine, last < number

namespace OpenField

/-- The lines of an open field with the comments above it. -/
def allLines (field : OpenField) : List Line :=
  field.comments ++ field.opening :: field.inner

end OpenField

namespace OpenDeclaration

/-- All lines of an open declaration, list by list. -/
def lines (declaration : OpenDeclaration) : List Line :=
  declaration.header :: declaration.content ++ declaration.fields.flatMap Field.allLines
    ++ declaration.waiting ++ declaration.field.toList.flatMap OpenField.allLines

end OpenDeclaration

/-- A field among the lines that were read: its comments in order, its own lines one after
another. -/
structure Field.Within (field : Field) (stretch : List Line) : Prop where
  comments : field.comments.Sublist stretch
  lines : field.lines <:+: stretch
  unclosed : field.closing = none → field.lines <:+ stretch

/-- A declaration that holds a stretch of lines. -/
structure Declaration.Holds (declaration : Declaration) (stretch : List Line) : Prop where
  header : ∃ rest, stretch = declaration.header :: rest
  footer : ∀ footer ∈ declaration.footer, ∃ front, stretch = front ++ [footer]
  content : declaration.content.Sublist stretch
  trailing : declaration.trailing.Sublist stretch
  fields : ∀ field ∈ declaration.fields, field.Within stretch
  perm : ∃ omitted, (declaration.lines ++ omitted).Perm stretch ∧
    ∀ line ∈ omitted, line.IsOmissible

/-- A part of a document that holds a stretch of lines. -/
def Item.Holds (stretch : List Line) : Item → Prop
  | .loose lines => lines = stretch
  | .declaration found => found.Holds stretch

/-- An open declaration that holds a stretch of lines. -/
structure OpenDeclaration.Holds (declaration : OpenDeclaration) (stretch : List Line) :
    Prop where
  header : ∃ rest, stretch = declaration.header :: rest
  content : (declaration.content ++ declaration.waiting).Sublist stretch
  fields : ∀ field ∈ declaration.fields, field.Within stretch ∧ field.closing.isSome
  field : ∀ field ∈ declaration.field,
    field.comments.Sublist stretch ∧ field.opening :: field.inner <:+ stretch
  perm : ∃ omitted, (declaration.lines ++ omitted).Perm stretch ∧
    ∀ line ∈ omitted, line.IsOmissible

/-- An outline that holds the lines read so far: a stretch for every part, and the lines of
what is still open. -/
structure Outline.Holds (outline : Outline) (seen : List Line) : Prop where
  parts : ∃ stretches current, seen = stretches.flatten ++ current ∧
    List.Forall₂ (fun item stretch => item.Holds stretch) outline.items stretches ∧
    (outline.declaration = none → outline.loose = current) ∧
    ∀ declaration ∈ outline.declaration, outline.loose = [] ∧ declaration.Holds current

theorem Field.Within.snoc
    (within : field.Within stretch) (closed : field.closing.isSome = true) (line : Line) :
    field.Within (stretch ++ [line]) where
  comments := within.comments.trans (sublist_append_left _ _)
  lines := within.lines.trans (infix_append_left ..)
  unclosed := by
    intro none_
    simp [none_] at closed

/-- Lines that are held, but for some that may be left out, stay so when lines are added and
some more of those are left out. -/
theorem exists_omitted_of_count {held more stretch added left : List Line}
    (covers : ∃ omitted, (held ++ omitted).Perm stretch ∧ ∀ line ∈ omitted, line.IsOmissible)
    (leaves : ∀ line ∈ left, line.IsOmissible)
    (counts : ∀ line, more.count line + left.count line = held.count line + added.count line) :
    ∃ omitted, (more ++ omitted).Perm (stretch ++ added) ∧ ∀ line ∈ omitted, line.IsOmissible := by
  obtain ⟨omitted, perm, omissible⟩ := covers
  refine ⟨omitted ++ left, ?_, forall_mem_append.mpr ⟨omissible, leaves⟩⟩
  rw [perm_iff_count] at perm ⊢
  intro line
  have here := perm line
  have there := counts line
  simp only [count_append] at here ⊢
  omega

namespace OpenDeclaration

variable {declaration : OpenDeclaration}

/-- The closing brace makes a declaration that holds the same lines and the brace. -/
theorem Holds.close (holds : declaration.Holds stretch)
    (opens : ∃ key name, declaration.header.shape = .blockOpen key name)
    (noField : declaration.field = none) :
    (declaration.close line).Holds (stretch ++ [line]) := by
  obtain ⟨key, name, shape⟩ := opens
  obtain ⟨rest, start⟩ := holds.header
  obtain ⟨kept, blanks, tail, content, cut, areBlank, -, -⟩ := declaration.exists_cutTail
  have before := holds.content.trans (sublist_append_left stretch [line])
  rw [content, append_assoc, append_assoc] at before
  rw [OpenDeclaration.close, cut]
  exact
    { header := ⟨rest ++ [line], by simp [start]⟩
      footer := by
        intro footer member
        cases member
        exact ⟨stretch, rfl⟩
      content := (sublist_append_left _ _).trans before
      trailing := ((sublist_append_right _ _).trans (sublist_append_right _ _)).trans before
      fields := fun field member =>
        (holds.fields field member).1.snoc (holds.fields field member).2 line
      perm := by
        refine exists_omitted_of_count holds.perm (fun line blank => .inl (areBlank line blank)) ?_
        intro candidate
        simp only [Declaration.lines, Declaration.closingLines, shape, lines, noField,
          content, Option.toList_none, Option.toList_some, flatMap_nil, append_nil, count_append,
          count_cons]
        omega }

/-- One step of an open declaration keeps track of its line. -/
theorem Holds.step {result : OpenDeclaration ⊕ Declaration} (holds : declaration.Holds stretch)
    (opens : ∃ key name, declaration.header.shape = .blockOpen key name)
    (child : declaration.childDepth = 1) (step : Step declaration line result) :
    result.elim (·.Holds (stretch ++ [line])) (·.Holds (stretch ++ [line])) := by
  obtain ⟨rest, start⟩ := holds.header
  have taken {more : OpenDeclaration} (counts : ∀ candidate, more.lines.count candidate =
      declaration.lines.count candidate + [line].count candidate) : ∃ omitted,
      (more.lines ++ omitted).Perm (stretch ++ [line]) ∧ ∀ line ∈ omitted, line.IsOmissible :=
    exists_omitted_of_count holds.perm (forall_mem_nil _) counts
  have before : (declaration.content ++ declaration.waiting).Sublist (stretch ++ [line]) :=
    holds.content.trans (sublist_append_left _ _)
  have header : ∃ rest, stretch ++ [line] = declaration.header :: rest :=
    ⟨rest ++ [line], by simp [start]⟩
  have fields : ∀ field ∈ declaration.fields,
      field.Within (stretch ++ [line]) ∧ field.closing.isSome := fun field member =>
    ⟨(holds.fields field member).1.snoc (holds.fields field member).2 line,
      (holds.fields field member).2⟩
  cases step with
  | @endsField field isOpen close depth =>
    obtain ⟨comments, suffix⟩ := holds.field field isOpen
    have lines : field.opening :: field.inner ++ [line] <:+ stretch ++ [line] :=
      suffix_append_self_iff.mpr suffix
    exact
      { header
        content := before
        fields := forall_mem_snoc.mpr ⟨fields, ⟨comments.trans (sublist_append_left _ _),
          lines.isInfix, by simp [OpenField.close]⟩, rfl⟩
        field := by simp
        perm := by
          refine taken fun candidate => ?_
          simp only [OpenDeclaration.lines, isOpen, OpenField.allLines, OpenField.close,
            Field.allLines, Field.lines, Option.toList_none, Option.toList_some,
            flatMap_append, flatMap_cons, flatMap_nil, append_nil, count_append]
          omega }
  | @inField field isOpen goesOn =>
    obtain ⟨comments, suffix⟩ := holds.field field isOpen
    exact
      { header
        content := before
        fields
        field := by
          intro current member
          cases member
          exact ⟨comments.trans (sublist_append_left _ _),
            suffix_append_self_iff.mpr suffix⟩
        perm := by
          refine taken fun candidate => ?_
          simp only [OpenDeclaration.lines, isOpen, OpenField.allLines, Option.toList_some,
            flatMap_cons, flatMap_nil, append_nil, count_append, count_cons]
          omega }
  | kept noField stays =>
    exact
      { header
        content := by
          simpa [keep] using holds.content.append (Sublist.refl [line])
        fields
        field := by simp [keep, noField]
        perm := by
          refine taken fun candidate => ?_
          simp only [OpenDeclaration.lines, keep, noField, Option.toList_none, flatMap_nil,
            append_nil, count_append, count_cons, count_nil]
          omega }
  | ends noField depth close => exact holds.close opens noField
  | skipped noField depth comment marker =>
    exact
      { header
        content := before
        fields
        field := by simp [noField]
        perm := exists_omitted_of_count holds.perm
          (forall_mem_singleton.mpr (.inr ⟨comment, depth.trans child, marker⟩)) fun _ => rfl }
  | waits noField depth comment plain =>
    exact
      { header
        content := by
          simpa using holds.content.append (Sublist.refl [line])
        fields
        field := by simp [noField]
        perm := by
          refine taken fun candidate => ?_
          simp only [OpenDeclaration.lines, noField, Option.toList_none, flatMap_nil, append_nil,
            count_append]
          omega }
  | startsField noField depth opensField =>
    exact
      { header
        content := by
          simpa using (sublist_append_left _ _).trans before
        fields
        field := by
          intro current member
          cases member
          exact ⟨(sublist_append_right _ _).trans before, suffix_append _ _⟩
        perm := by
          refine taken fun candidate => ?_
          simp only [OpenDeclaration.lines, noField, OpenField.allLines, Option.toList_none,
            Option.toList_some, flatMap_cons, flatMap_nil, append_nil, count_append]
          omega }

/-- What the end of the text leaves of a declaration holds the same lines. -/
theorem Holds.abandon (holds : declaration.Holds stretch)
    (opens : ∃ key name, declaration.header.shape = .blockOpen key name) :
    declaration.abandon.Holds stretch := by
  obtain ⟨key, name, shape⟩ := opens
  exact
    { header := holds.header
      footer := by simp [OpenDeclaration.abandon]
      content := holds.content
      trailing := nil_sublist _
      fields := by
        refine forall_mem_append.mpr ⟨fun field old => (holds.fields field old).1,
          forall_mem_map.mpr fun current isOpen => ?_⟩
        obtain ⟨comments, suffix⟩ := holds.field current (Option.mem_toList.mp isOpen)
        have lines : (current.close declaration.parent none).lines <:+ stretch := by
          simpa [Field.lines, OpenField.close] using suffix
        exact ⟨comments, lines.isInfix, fun _ => lines⟩
      perm := by
        rw [← append_nil stretch]
        refine exists_omitted_of_count holds.perm (forall_mem_nil _) fun candidate => ?_
        cases field : declaration.field <;>
          simp only [Declaration.lines, Declaration.closingLines, shape, OpenDeclaration.lines,
            OpenDeclaration.abandon, field, OpenField.allLines, OpenField.close, Field.allLines,
            Field.lines, Option.toList_some, Option.toList_none, map_cons, map_nil, flatMap_append,
            flatMap_cons, flatMap_nil, append_nil, count_append, count_cons, count_nil] <;>
          omega }

end OpenDeclaration

section Held

variable {properties : List Text} {reads : Level → Line → Prop} {level : Level}

namespace Outline

variable {outline : Outline} {seen : List Line}

/-- Where no declaration is open, the settled parts hold everything that was read. -/
theorem Holds.settled (holds : outline.Holds seen) (noDeclaration : outline.declaration = none) :
    ∃ stretches : List (List Line), seen = stretches.flatten ∧
      Forall₂ (fun item stretch => item.Holds stretch) outline.settled stretches := by
  obtain ⟨stretches, current, whole, parts, loose, -⟩ := holds.parts
  have isLoose := loose noDeclaration
  unfold Outline.settled
  split
  · rename_i noLoose
    rw [List.isEmpty_iff] at noLoose
    exact ⟨stretches, by simp [whole, ← isLoose, noLoose], parts⟩
  · exact ⟨stretches ++ [current], by simp [whole],
      rel_append parts (.cons isLoose .nil)⟩

theorem Holds.add (readAt : ReadsAt properties reads)
    (holds : outline.Holds seen) (sound : outline.Sound reads level) :
    (outline.add line).Holds (seen ++ [line]) := by
  have step := outline.step_add line
  generalize outline.add line = next at step
  obtain ⟨stretches, current, whole, parts, loose, declared⟩ := holds.parts
  have stepped (declaration) (open_ : outline.declaration = some declaration) := by
    have declarationSound := (sound.declaration declaration open_).2
    exact (declared declaration open_).2.step declarationSound.opens
      (declarationSound.childDepth_eq readAt) (declaration.step_add line)
  constructor
  cases step with
  | @within declaration more open_ added =>
    have later := stepped declaration open_
    rw [added] at later
    refine ⟨stretches, current ++ [line], by simp [whole], parts, by simp, ?_⟩
    rintro _ ⟨⟩
    exact ⟨(declared declaration open_).1, later⟩
  | @completes declaration complete open_ added =>
    have complete := stepped declaration open_
    rw [added] at complete
    refine ⟨stretches ++ [current ++ [line]], [], by simp [whole], ?_,
      by simp [(declared declaration open_).1], by simp⟩
    exact rel_append parts (.cons complete .nil)
  | @opens key name noDeclaration top shape =>
    obtain ⟨stretches, whole, parts⟩ := holds.settled noDeclaration
    refine ⟨stretches, [line], by simp [whole], parts, by simp, ?_⟩
    intro candidate member
    cases member
    refine ⟨rfl, ?_⟩
    exact
      { header := ⟨[], rfl⟩
        content := by simp
        fields := by simp
        field := by simp
        perm := ⟨[], by simp [OpenDeclaration.lines], by simp⟩ }
  | @inline key name value noDeclaration top shape =>
    obtain ⟨stretches, whole, parts⟩ := holds.settled noDeclaration
    refine ⟨stretches ++ [[line]], [], by simp [whole], ?_, by simp, by simp⟩
    refine rel_append parts (.cons ?_ .nil)
    exact
      { header := ⟨[], rfl⟩
        footer := by
          intro footer member
          cases member
          exact ⟨[], rfl⟩
        content := by simp
        trailing := by simp
        fields := by simp
        perm := ⟨[], by simp [Declaration.lines, Declaration.closingLines, shape], by simp⟩ }
  | loose noDeclaration plain =>
    refine ⟨stretches, current ++ [line], by simp [whole], parts, ?_, ?_⟩
    · intro _
      simp [loose noDeclaration]
    · simp [noDeclaration]

theorem Holds.foldl (readAt : ReadsAt properties reads)
    {lines : List Line} (run : Run reads level lines final)
    (holds : outline.Holds seen) (sound : outline.Sound reads level) :
    (lines.foldl Outline.add outline).Holds (seen ++ lines) := by
  induction run generalizing outline seen with
  | nil => simpa using holds
  | cons read _ ih =>
    simpa using ih (holds.add readAt sound) (sound.add readAt read)

theorem Holds.finish (holds : outline.Holds seen) (sound : outline.Sound reads level) :
    ∃ stretches : List (List Line), seen = stretches.flatten ∧
      Forall₂ (fun item stretch => item.Holds stretch) outline.finish stretches := by
  unfold Outline.finish
  cases open_ : outline.declaration with
  | none => exact holds.settled open_
  | some declaration =>
    obtain ⟨stretches, current, whole, parts, -, declared⟩ := holds.parts
    obtain ⟨-, declarationHolds⟩ := declared declaration open_
    have declarationSound := (sound.declaration declaration open_).2
    exact ⟨stretches ++ [current], by simp [whole],
      rel_append parts (.cons (declarationHolds.abandon declarationSound.opens) .nil)⟩

end Outline

/-- The parts of a document hold consecutive stretches of its lines. -/
theorem Document.exists_stretches
    (readAt : ReadsAt properties reads)
    {lexed : Lexed} (run : Run reads (.outside 0) lexed.lines final) :
    ∃ stretches : List (List Line), lexed.lines = stretches.flatten ∧
      Forall₂ (fun item stretch => item.Holds stretch)
        (ofLexed lexed).items stretches := by
  have sound := Outline.sound_empty reads
  have holds : Outline.Holds {} [] := ⟨[], [], rfl, .nil, fun _ => rfl, by simp⟩
  have held := holds.foldl readAt run sound
  simp only [nil_append] at held
  exact held.finish (sound.foldl readAt run)

end Held

theorem exists_of_forall₂ {α β : Type} {related : α → β → Prop} {items : List α} {others : List β}
    (all : Forall₂ related items others) {item : α} (member : item ∈ items) :
    ∃ other ∈ others, related item other := by
  induction all with
  | nil => cases member
  | @cons first other items others holds _ ih =>
    rcases mem_cons.mp member with rfl | later
    · exact ⟨other, mem_cons_self, holds⟩
    · obtain ⟨found, isOther, foundHolds⟩ := ih later
      exact ⟨found, mem_cons_of_mem _ isOther, foundHolds⟩

/-- A part of a document holds a stretch of its lines. -/
theorem Document.exists_stretch {properties : List Text} {reads : Level → Line → Prop}
    {lexed : Lexed} (readAt : ReadsAt properties reads)
    (run : Run reads (.outside 0) lexed.lines final) (member : item ∈ (ofLexed lexed).items) :
    ∃ stretch, stretch <:+: lexed.lines ∧ item.Holds stretch := by
  obtain ⟨stretches, whole, held⟩ := exists_stretches readAt run
  obtain ⟨stretch, isStretch, holds⟩ := exists_of_forall₂ held member
  exact ⟨stretch, whole ▸ infix_of_mem_flatten isStretch, holds⟩

/-- Lines numbered in increasing order. -/
def Ascending (lines : List Line) : Prop :=
  lines.Pairwise fun first second => first.number < second.number

theorem Ascending.around {above below : List Line}
    (ascending : Ascending (above ++ line :: below)) :
    (∀ other ∈ above, other.number < line.number) ∧
      ∀ other ∈ below, line.number < other.number := by
  rw [Ascending, pairwise_append, pairwise_cons] at ascending
  exact ⟨fun other member => ascending.2.2 other member line mem_cons_self,
    ascending.2.1.1⟩

/-- The other lines of a declaration lie between its header and its closing brace. -/
theorem Declaration.Holds.around {declaration : Declaration} (holds : declaration.Holds stretch)
    (ascending : Ascending stretch) (member : line ∈ stretch) :
    (line = declaration.header ∨ declaration.startLine < line.number) ∧
      ∀ footer ∈ declaration.footer, line = footer ∨ line.number < footer.number := by
  constructor
  · obtain ⟨rest, rfl⟩ := holds.header
    exact (mem_cons.mp member).imp_right ((pairwise_cons.mp ascending).1 line)
  · intro footer isFooter
    obtain ⟨front, rfl⟩ := holds.footer footer isFooter
    exact (mem_append.mp member).symm.imp mem_singleton.mp (ascending.around.1 line)

theorem Declaration.Holds.bounds {declaration : Declaration}
    (holds : declaration.Holds stretch) (ascending : Ascending stretch) : ∀ line ∈ stretch,
      declaration.startLine ≤ line.number ∧ ∀ last ∈ declaration.endLine, line.number ≤ last := by
  intro line member
  obtain ⟨start, stop⟩ := holds.around ascending member
  refine ⟨start.elim (fun same => same ▸ Nat.le_refl _) Nat.le_of_lt, fun last ends => ?_⟩
  obtain ⟨footer, isFooter, rfl⟩ := Option.map_eq_some_iff.mp ends
  exact (stop footer isFooter).elim (fun same => same ▸ Nat.le_refl _) Nat.le_of_lt

namespace Item

theorem Holds.perm (holds : item.Holds stretch) :
    ∃ omitted, (item.lines ++ omitted).Perm stretch ∧ ∀ line ∈ omitted, line.IsOmissible := by
  cases item with
  | loose lines => exact ⟨[], by simp [Item.lines, show lines = stretch from holds], by simp⟩
  | declaration found => exact Declaration.Holds.perm holds

theorem Holds.subset (holds : item.Holds stretch) : ∀ line ∈ item.lines, line ∈ stretch := by
  obtain ⟨omitted, perm, -⟩ := holds.perm
  exact fun line member => perm.subset (mem_append_left _ member)

theorem Holds.sublist (holds : item.Holds stretch) :
    ∀ list ∈ item.lists, list.Sublist stretch := by
  intro list member
  cases item with
  | loose lines =>
    have whole : lines = stretch := holds
    rw [mem_singleton.mp member, whole]
  | declaration found =>
    have found_ : found.Holds stretch := holds
    simp only [lists, mem_append, mem_cons, not_mem_nil, or_false, mem_flatMap] at member
    rcases member with (rfl | rfl) | ⟨field, inFields, rfl | rfl⟩
    · exact found_.content
    · exact found_.trailing
    · exact (found_.fields field inFields).comments
    · exact (found_.fields field inFields).lines.sublist

end Item

namespace Document

variable {items : List Item} {stretches : List (List Line)}

theorem exists_omitted
    (held : Forall₂ (fun item stretch => item.Holds stretch) items stretches) :
    ∃ omitted, (items.flatMap Item.lines ++ omitted).Perm stretches.flatten ∧
      ∀ line ∈ omitted, line.IsOmissible := by
  induction held with
  | nil => exact ⟨[], by simp, by simp⟩
  | @cons item stretch items stretches holds _ ih =>
    obtain ⟨later, laterPerm, laterOmissible⟩ := ih
    obtain ⟨here, herePerm, hereOmissible⟩ := holds.perm
    refine ⟨here ++ later, ?_, forall_mem_append.mpr ⟨hereOmissible, laterOmissible⟩⟩
    rw [perm_iff_count] at laterPerm herePerm ⊢
    intro line
    have laterCount := laterPerm line
    have hereCount := herePerm line
    simp only [flatMap_cons, flatten_cons, count_append] at *
    omega

theorem ascending_of_held (ascending : Ascending stretches.flatten)
    (held : Forall₂ (fun item stretch => item.Holds stretch) items stretches) :
    (∀ item ∈ items, ∀ list ∈ item.lists, Ascending list) ∧
      items.Pairwise fun first second =>
        ∀ line ∈ first.lines, ∀ later ∈ second.lines, line.number < later.number := by
  induction held with
  | nil => simp
  | @cons item stretch items stretches holds rest ih =>
    simp only [Ascending, flatten_cons, pairwise_append] at ascending
    obtain ⟨here, later, across⟩ := ascending
    obtain ⟨lists, pairs⟩ := ih later
    refine ⟨?_, pairwise_cons.mpr ⟨?_, pairs⟩⟩
    · exact forall_mem_cons.mpr
        ⟨fun list inLists => here.sublist (holds.sublist list inLists), lists⟩
    · intro second member line inFirst other inSecond
      obtain ⟨omitted, perm, -⟩ := exists_omitted rest
      refine across line (holds.subset line inFirst) other (perm.subset ?_)
      exact mem_append_left _ (mem_flatMap.mpr ⟨second, member, inSecond⟩)

end Document

section Marks

variable {properties : List Text} {reads : Level → Line → Prop} {level : Level}
  (readAt : ReadsAt properties reads)
include readAt

/-- Lines none of which closes a block at some depth do not rise above it. -/
theorem Run.le_depth {lines : List Line} {least : Nat} (run : Run reads level lines final)
    (start : least ≤ level.depth)
    (noClose : ∀ line ∈ lines, ¬(line.shape = .blockClose ∧ line.depth = least)) :
    ∀ line ∈ lines, least ≤ line.depth := by
  induction run with
  | nil => simp
  | @cons level final line lines read _ ih =>
    have readLine := readAt _ _ read
    obtain ⟨here, later⟩ := forall_mem_cons.mp noClose
    exact forall_mem_cons.mpr ⟨readLine.depth ▸ start, ih (readLine.le_depth_next start here) later⟩

/-- Loose lines stand outside every block. -/
theorem Run.depth_of_loose {lines : List Line} (run : Run reads level lines final)
    (top : level.depth = 0) (loose : ∀ line ∈ lines, line.IsLoose) :
    ∀ line ∈ lines, line.depth = 0 := by
  induction run with
  | nil => simp
  | @cons level final line lines read _ ih =>
    obtain ⟨⟨notOpen, -⟩, later⟩ := forall_mem_cons.mp loose
    have next : (level.next line.shape).depth = 0 := by
      cases shape : line.shape <;> simp_all [Level.next]
    exact forall_mem_cons.mpr ⟨(readAt _ _ read).depth.trans top, ih next later⟩

/-- No line of a field is a section marker of its declaration. -/
theorem Field.Sound.noMark (sound : field.Sound reads level) :
    ∀ line ∈ field.allLines, ¬line.IsSectionMark := by
  obtain ⟨key, name, shape, -⟩ := opensField_iff.mp sound.opens
  have innerDepth : ∀ line ∈ field.inner, 2 ≤ line.depth := by
    have run := sound.run
    cases run with
    | cons _ rest =>
      rw [shape] at rest
      obtain ⟨middle, inner, -⟩ := rest.split
      exact inner.le_depth readAt (by simp [Level.next]) sound.inner
  rintro line member ⟨comment, depth, marker⟩
  simp only [allLines, lines, mem_append, mem_cons, Option.mem_toList] at member
  rcases member with remark | (rfl | inner) | closing
  · simp [(sound.remarks line remark).plain] at marker
  · simp [shape] at comment
  · have := innerDepth line inner
    omega
  · simp [(sound.closing line closing).1] at comment

/-- No line that a document keeps is a section marker of a declaration. -/
theorem Item.Sound.noMark (sound : item.Sound reads final) :
    ∀ line ∈ item.lines, ¬line.IsSectionMark := by
  have contentNoMark {line : Line} (content : line.IsContent) : ¬line.IsSectionMark := by
    rintro ⟨comment, depth, marker⟩
    simp [(content depth).2.2 comment] at marker
  cases item with
  | loose lines =>
    obtain ⟨top, run, loose⟩ := sound
    rintro line member ⟨-, depth, -⟩
    have zero := run.depth_of_loose readAt rfl loose line member
    omega
  | declaration found =>
    intro line member
    simp only [lines, Declaration.lines, mem_append, mem_cons, mem_flatMap] at member
    rcases sound with ⟨-, inline | closed⟩ | abandoned
    · obtain ⟨key, name, value, shape⟩ := inline.shape
      have fields : found.fields = [] := by rw [inline.eq]
      have content : found.content = [] := by rw [inline.eq]
      have trailing : found.trailing = [] := by rw [inline.eq]
      simp only [Declaration.closingLines, shape, fields, content, trailing,
        not_mem_nil, false_and, exists_false, or_false] at member
      rintro ⟨comment, -, -⟩
      rw [member, shape] at comment
      cases comment
    · obtain ⟨key, name, shape⟩ := closed.opens
      obtain ⟨footer, isFooter, -, close⟩ := closed.footer
      simp only [Declaration.closingLines, shape, isFooter, Option.toList_some,
        mem_singleton] at member
      rcases member with (((rfl | content) | ⟨field, inFields, inField⟩) | trailing) | rfl
      · rintro ⟨comment, -, -⟩
        simp [shape] at comment
      · exact contentNoMark (closed.content line content)
      · exact (closed.complete field inFields).noMark readAt line inField
      · rintro ⟨comment, -, marker⟩
        rcases closed.trailing line trailing with remark | ⟨-, blank⟩
        · simp [remark.plain] at marker
        · simp [blank] at comment
      · rintro ⟨comment, -, -⟩
        simp [close] at comment
    · obtain ⟨key, name, shape⟩ := abandoned.shape
      simp only [Declaration.closingLines, shape, abandoned.footer, abandoned.trailing,
        Option.toList_none, not_mem_nil, or_false] at member
      rcases member with (rfl | content) | ⟨field, inFields, inField⟩
      · rintro ⟨comment, -, -⟩
        simp [shape] at comment
      · exact contentNoMark (abandoned.content line content)
      · rcases abandoned.fields field inFields with complete | ⟨unfinished, -⟩
        · exact complete.noMark readAt line inField
        · exact unfinished.noMark readAt line inField

omit readAt in
/-- A line of the stretch of a field that is none of its lines stands before its header or
behind its closing brace. -/
theorem Field.Within.outside
    (within : field.Within stretch) (ascending : Ascending stretch) (member : line ∈ stretch)
    (foreign : line ∉ field.lines) :
    line.number < field.startLine ∨ ∃ last ∈ field.endLine, last < line.number := by
  have opening : field.opening ∈ field.lines := by simp [Field.lines]
  cases closing : field.closing with
  | none =>
    obtain ⟨front, rfl⟩ := within.unclosed closing
    have before := (mem_append.mp member).resolve_right foreign
    exact .inl ((pairwise_append.mp ascending).2.2 line before _ opening)
  | some last =>
    obtain ⟨front, back, rfl⟩ := within.lines
    have closes : last ∈ field.lines := by simp [Field.lines, closing]
    obtain ⟨frontAndField, -, across⟩ := pairwise_append.mp ascending
    rcases mem_append.mp member with early | behind
    · have before := (mem_append.mp early).resolve_right foreign
      exact .inl ((pairwise_append.mp frontAndField).2.2 line before _ opening)
    · refine .inr ⟨last.number, by simp [endLine, closing], ?_⟩
      exact across last (mem_append_right _ closes) line behind

/-- A section marker in the stretch of a part lies inside a declaration and outside its
fields. -/
theorem Item.Holds.encloses (holds : item.Holds stretch) (sound : item.Sound reads final)
    (ascending : Ascending stretch) (member : line ∈ stretch) (mark : line.IsSectionMark) :
    ∃ found, item = .declaration found ∧ found.Encloses line.number := by
  have foreign : line ∉ item.lines := fun inside => sound.noMark readAt line inside mark
  cases item with
  | loose lines =>
    have whole : lines = stretch := holds
    rw [Item.lines, whole] at foreign
    exact absurd member foreign
  | declaration found =>
    have found_ : found.Holds stretch := holds
    obtain ⟨start, stop⟩ := found_.around ascending member
    refine ⟨found, rfl, start.resolve_left ?_, ?_, ?_⟩
    · rintro rfl
      exact foreign (by simp [lines, Declaration.lines])
    · intro last isLast
      obtain ⟨footer, isFooter, rfl⟩ := Option.map_eq_some_iff.mp isLast
      refine (stop footer isFooter).resolve_left ?_
      rintro rfl
      -- The closing line is a brace or, on one line, a header, and no comment.
      have comment := mark.1
      rcases sound with ⟨-, inline | closed⟩ | abandoned
      · obtain ⟨key, name, value, shape⟩ := inline.shape
        have same : found.footer = some found.header := by rw [inline.eq]
        rw [same] at isFooter
        cases isFooter
        simp [shape] at comment
      · obtain ⟨other, isOther, -, close⟩ := closed.footer
        rw [isOther] at isFooter
        cases isFooter
        simp [close] at comment
      · rw [abandoned.footer] at isFooter
        cases isFooter
    · intro field inFields
      refine (found_.fields field inFields).outside ascending member fun inside => foreign ?_
      simp only [lines, Declaration.lines, mem_append, mem_cons, mem_flatMap]
      exact .inl (.inl (.inr ⟨field, inFields, mem_append_right _ inside⟩))

end Marks

/-- Whether a document leaves out a line as one of its section markers: a comment with the
text of a marker, directly inside a declaration and outside its fields. -/
def Document.DropsMark (document : Document) (line : Line) : Prop :=
  line.shape = .comment ∧ line.depth = 1 ∧ isMarker line.text = true ∧
    ∃ declaration ∈ document.declarations, declaration.Encloses line.number

/-- How a document distributes lines among its parts. -/
structure Document.Partitions (document : Document) (lines : List Line) : Prop where
  /-- The lines are numbered from zero up to the line count. -/
  numbers : lines.map Line.number = List.range document.lineCount
  /-- Nothing but lines of the text is held. -/
  sources : ∀ line ∈ document.lines, line ∈ lines
  /-- A line that is neither blank nor a section marker is held exactly once. -/
  once : ∀ line ∈ lines, line.shape ≠ .blank → ¬document.DropsMark line →
    (document.lines.map Line.number).count line.number = 1
  /-- A section marker is not held. -/
  dropped : ∀ line ∈ lines, document.DropsMark line →
    (document.lines.map Line.number).count line.number = 0
  /-- A blank line is held at most once. -/
  blank : ∀ line ∈ lines, line.shape = .blank →
    (document.lines.map Line.number).count line.number ≤ 1
  /-- Every list of every part is in source order. -/
  ascending : ∀ item ∈ document.items, ∀ list ∈ item.lists, Ascending list
  /-- So are the parts. -/
  consecutive : document.items.Pairwise fun first second =>
    ∀ line ∈ first.lines, ∀ later ∈ second.lines, line.number < later.number

theorem Lexed.ascending_ofText (properties : List Text) (text : Text) :
    Ascending (ofText properties text).lines := by
  have sorted : ((ofText properties text).lines.map Line.number).Pairwise (· < ·) := by
    rw [number_ofText]
    exact pairwise_lt_range
  exact pairwise_map.mp sorted

/-- Lines in increasing order are told apart by their numbers. -/
theorem Ascending.eq_of_number {lines : List Line} (ascending : Ascending lines)
    {first second : Line} (inFirst : first ∈ lines) (inSecond : second ∈ lines)
    (same : first.number = second.number) : first = second := by
  have nodup : (lines.map Line.number).Nodup := by
    refine pairwise_map.mpr (ascending.imp ?_)
    intro first second less
    exact Nat.ne_of_lt less
  exact inj_on_of_nodup_map nodup inFirst inSecond same

/-- What is known by lines in increasing order stands in one place. -/
theorem Ascending.eq_of_split {α : Type} {place : α → Line} {front rest other behind : List α}
    {item again : α} (ascending : Ascending ((front ++ item :: rest).map place))
    (whole : front ++ item :: rest = other ++ again :: behind)
    (number : (place again).number = (place item).number) :
    other = front ∧ again = item ∧ behind = rest := by
  rw [map_append, map_cons] at ascending
  obtain ⟨before, after⟩ := ascending.around
  have notBefore : again ∉ front := fun member =>
    Nat.ne_of_lt (before _ (mem_map_of_mem member)) number
  have notBehind : again ∉ rest := fun member =>
    Nat.ne_of_lt (after _ (mem_map_of_mem member)) number.symm
  obtain ⟨sameFront, sameItem, sameRest⟩ :=
    (append_cons_inj_of_notMem notBefore notBehind).mp whole
  exact ⟨sameFront.symm, sameItem.symm, sameRest.symm⟩

/-- A section marker among the lines of a text lies directly inside a declaration. -/
theorem Document.dropsMark_of_isSectionMark (properties : List Text) (text : Text)
    (member : line ∈ (Lexed.ofText properties text).lines) (mark : line.IsSectionMark) :
    (ofText properties text).DropsMark line := by
  have run := Lexed.run_ofText properties text
  have ascending := Lexed.ascending_ofText properties text
  obtain ⟨stretches, whole, held⟩ := exists_stretches .refl run
  rw [whole] at member ascending
  obtain ⟨stretch, isStretch, inStretch⟩ := mem_flatten.mp member
  have stretchAscending := ascending.sublist (sublist_flatten_of_mem isStretch)
  obtain ⟨item, inItems, holds⟩ : ∃ item ∈ (ofText properties text).items, item.Holds stretch :=
    exists_of_forall₂ held.flip isStretch
  obtain ⟨found, rfl, encloses⟩ :
      ∃ found, item = .declaration found ∧ found.Encloses line.number := by
    obtain ⟨last, sound⟩ := exists_sound .refl run inItems
    exact holds.encloses .refl sound stretchAscending inStretch mark
  exact ⟨mark.1, mark.2.1, mark.2.2, found, mem_filterMap.mpr ⟨_, inItems, rfl⟩, encloses⟩

/-- No line that the document of a text holds is a section marker. -/
theorem Document.noMark_ofText (properties : List Text) (text : Text) :
    ∀ line ∈ (ofText properties text).lines, ¬line.IsSectionMark := by
  intro line member
  obtain ⟨item, inItems, inItem⟩ := mem_flatMap.mp member
  have run := Lexed.run_ofText properties text
  obtain ⟨last, sound⟩ := exists_sound .refl run inItems
  exact sound.noMark .refl line inItem

/-- The document of a text partitions its lines. -/
theorem Document.partitions_ofText (properties : List Text) (text : Text) :
    (ofText properties text).Partitions (Lexed.ofText properties text).lines := by
  let lines := (Lexed.ofText properties text).lines
  have run := Lexed.run_ofText properties text
  have ascending := Lexed.ascending_ofText properties text
  have numbers := Lexed.number_ofText properties text
  obtain ⟨stretches, whole, held⟩ := exists_stretches .refl run
  obtain ⟨omitted, perm, omissible⟩ := exists_omitted held
  obtain ⟨lists, pairs⟩ := ascending_of_held (whole ▸ ascending) held
  rw [← whole] at perm
  have inLines : ∀ line ∈ (ofText properties text).lines ++ omitted, line ∈ lines :=
    fun line member => perm.subset member
  -- Every number occurs once among the lines held and the lines omitted together.
  have total : ∀ line ∈ lines,
      ((ofText properties text).lines.map Line.number).count line.number +
        (omitted.map Line.number).count line.number = 1 := by
    intro line member
    have counts := (perm.map Line.number).count_eq line.number
    rw [numbers, List.map_append, List.count_append] at counts
    have inRange : line.number ∈ List.range lines.length := by
      rw [← numbers]
      exact List.mem_map_of_mem member
    rw [List.count_eq_one_of_mem List.nodup_range inRange] at counts
    exact counts
  have unheld : ∀ line ∈ lines, ¬line.IsOmissible →
      (omitted.map Line.number).count line.number = 0 := by
    intro line member kept
    refine List.count_eq_zero.mpr fun inOmitted => kept ?_
    obtain ⟨other, isOmitted, same⟩ := List.mem_map.mp inOmitted
    have inSource := inLines other (List.mem_append_right _ isOmitted)
    rw [← ascending.eq_of_number inSource member same]
    exact omissible other isOmitted
  exact
    { numbers
      sources := (forall_mem_append.mp inLines).1
      once := by
        intro line member notBlank kept
        have count := total line member
        have none_ := unheld line member fun omissible =>
          omissible.elim notBlank fun mark =>
            kept (dropsMark_of_isSectionMark properties text member mark)
        omega
      dropped := by
        rintro line member ⟨comment, depth, marker, -⟩
        refine List.count_eq_zero.mpr fun inDocument => ?_
        obtain ⟨other, inParts, same⟩ := List.mem_map.mp inDocument
        have inSource := inLines other (List.mem_append_left _ inParts)
        have equal := ascending.eq_of_number inSource member same
        exact noMark_ofText properties text other inParts (equal ▸ ⟨comment, depth, marker⟩)
      blank := by
        intro line member _
        have count := total line member
        omega
      ascending := lists
      consecutive := pairs }

end LookML
