import LookML.Proofs.Arrangement
import LookML.Proofs.Grouping
import LookML.Proofs.Partition
import LookML.Proofs.Reading
import LookML.Proofs.SegmentLines
import LookML.Proofs.Spacing
import Mathlib.Data.List.Perm.Basic

/-!
# Layout keeps the code

Every line that a document is written as is blank, a section marker, or the image of a
line of the text, and every line of the text that is not blank has exactly one image,
unless the builder took it for a section marker.  Blanks aside, an image is its line;
in SQL the case of keywords may differ.
-/

namespace LookML

open Text Code List Sql.Style

variable {written : List Text} {level final : Level} {lines : List Line}

/-- Where a line of the layout comes from. -/
inductive Origin where
  | start (category : Category)
  | finish (category : Category)
  | source (line : Line)
  deriving Repr, DecidableEq

/-- The line of the text that is laid out. -/
def Origin.line? : Origin → Option Line
  | start _ | finish _ => none
  | source line => some line

def Field.origins (field : Field) : List Origin :=
  field.allLines.map .source

/-- The fields of a section one after another, between markers if it is marked. -/
def Section.origins (part : Section) : List Origin :=
  let fields := part.fields.flatMap Field.origins
  match part.category with
  | some category => if part.marked then .start category :: fields ++ [.finish category] else fields
  | none => fields

/-- A declaration from its header to its closing brace: other content first, then the
sections of fields, then the comments behind them. -/
def Declaration.origins (settings : FormatSettings) (declaration : Declaration) : List Origin :=
  .source declaration.header :: declaration.content.map .source
    ++ (Section.arrange settings.groupFields settings.sortFields declaration.fields).flatMap
      Section.origins
    ++ declaration.trailing.map .source ++ declaration.closingLines.map .source

def Item.origins (settings : FormatSettings) : Item → List Origin
  | .loose lines => lines.map .source
  | .declaration found => found.origins settings

def Document.origins (settings : FormatSettings) (document : Document) : List Origin :=
  document.items.flatMap (Item.origins settings)

/-- A line that ends a segment and holds more than its terminator. -/
def Line.ClosesText (line : Line) : Prop :=
  line.shape = .segmentClose ∧
    ∃ before tail, LastCut terminator line.text before tail ∧ allBlank before = false

/-- The lines that a line is written as.  The case of letters may differ where lines are
spelled anew. -/
structure Line.Imaged (spelled : Line → Prop) (line : Line) (image : List Text) : Prop where
  count : (line.ClosesText ∧ image.length = 2) ∨ (¬line.ClosesText ∧ image.length = 1)
  solid : ∀ text ∈ image, allBlank text = false
  upper : upper (squash image.flatten) = upper (squash line.text)
  exact : ¬spelled line → squash image.flatten = squash line.text

/-- A layout of lines and markers, in their order.  Blank lines come and go. -/
inductive Laid (spelled : Line → Prop) : List Origin → List Text → Prop
  | nil : Laid spelled [] []
  | gap {origins : List Origin} {text : Text} {written : List Text}
      (blank : allBlank text = true) (rest : Laid spelled origins written) :
      Laid spelled origins (text :: written)
  | blank {line : Line} {origins : List Origin} {written : List Text}
      (blank : allBlank line.text = true) (rest : Laid spelled origins written) :
      Laid spelled (.source line :: origins) written
  | start {category : Category} {origins : List Origin} {text : Text} {written : List Text}
      (mark : trim text = category.startMarker) (rest : Laid spelled origins written) :
      Laid spelled (.start category :: origins) (text :: written)
  | finish {category : Category} {origins : List Origin} {text : Text} {written : List Text}
      (mark : trim text = category.endMarker) (rest : Laid spelled origins written) :
      Laid spelled (.finish category :: origins) (text :: written)
  | source {line : Line} {origins : List Origin} {image written : List Text}
      (imaged : line.Imaged spelled image) (rest : Laid spelled origins written) :
      Laid spelled (.source line :: origins) (image ++ written)

namespace Laid

variable {spelled : Line → Prop} {origins more : List Origin} {other : List Text}

theorem append (first : Laid spelled origins written) (second : Laid spelled more other) :
    Laid spelled (origins ++ more) (written ++ other) := by
  induction first with
  | nil => exact second
  | gap blank _ ih => exact .gap blank ih
  | blank blank _ ih => exact .blank blank ih
  | start mark _ ih => exact .start mark ih
  | finish mark _ ih => exact .finish mark ih
  | source imaged _ ih =>
    rw [append_assoc]
    exact .source imaged ih

theorem flatMap {α : Type} {parts : List α} {origins : α → List Origin}
    {written : α → List Text} (each : ∀ part ∈ parts, Laid spelled (origins part) (written part)) :
    Laid spelled (parts.flatMap origins) (parts.flatMap written) := by
  induction parts with
  | nil => exact .nil
  | cons part parts ih =>
    rw [flatMap_cons, flatMap_cons]
    apply append (each part mem_cons_self)
    exact ih (forall_mem_cons.mp each).2

end Laid

namespace Layout

/-- Lines that are not empty are kept together. -/
theorem collapseFrom_append {image : List Text} (occupied : image ≠ [])
    (solid : ∀ text ∈ image, text.isEmpty = false) (started gap : Bool) (rest : List Text) :
    collapseFrom started gap (image ++ rest) =
      (if started && gap then [[]] else []) ++ (image ++ collapseFrom true false rest) := by
  induction image generalizing started gap with
  | nil => exact absurd rfl occupied
  | cons text image ih =>
    have here := solid text mem_cons_self
    have later : collapseFrom true false (image ++ rest) =
        image ++ collapseFrom true false rest := by
      cases image with
      | nil => rfl
      | cons next image =>
        apply ih (cons_ne_nil _ _)
        exact (forall_mem_cons.mp solid).2
    rw [cons_append, collapseFrom, here]
    simp only [Bool.false_eq_true, if_false, later]
    split <;> rfl

theorem laid_collapseFrom {spelled : Line → Prop} {origins : List Origin}
    (laid : Laid spelled origins written) (started gap : Bool) :
    Laid spelled origins (collapseFrom started gap written) := by
  -- a written line that is not empty brings at most one empty line before it
  have kept {origins : List Origin} {image rest : List Text} (occupied : image ≠ [])
      (solid : ∀ text ∈ image, text.isEmpty = false) (started gap : Bool)
      (laid : Laid spelled origins (image ++ collapseFrom true false rest)) :
      Laid spelled origins (collapseFrom started gap (image ++ rest)) := by
    rw [collapseFrom_append occupied solid]
    split
    · exact .gap rfl laid
    · exact laid
  have marked {text mark : Text} (trimmed : trim text = mark) (occupied : mark ≠ []) :
      ∀ line ∈ [text], line.isEmpty = false := by
    intro line member
    rw [mem_singleton.mp member]
    cases text with
    | nil => exact absurd trimmed.symm occupied
    | cons c text => rfl
  induction laid generalizing started gap with
  | nil => exact .nil
  | @gap origins text written blank _ ih =>
    cases empty : text.isEmpty with
    | true =>
      rw [collapseFrom, empty]
      exact ih started true
    | false =>
      exact kept (cons_ne_nil text []) (by simpa using empty) started gap
        (.gap blank (ih true false))
  | blank blank _ ih => exact .blank blank (ih started gap)
  | @start category _ text _ mark _ ih =>
    have solid := marked mark (by cases category <;> decide)
    exact kept (cons_ne_nil text []) solid started gap (.start mark (ih true false))
  | @finish category _ text _ mark _ ih =>
    have solid := marked mark (by cases category <;> decide)
    exact kept (cons_ne_nil text []) solid started gap (.finish mark (ih true false))
  | @source line _ image _ imaged _ ih =>
    refine kept ?_ ?_ started gap (.source imaged (ih true false))
    · rintro rfl
      rcases imaged.count with ⟨-, count⟩ | ⟨-, count⟩ <;> cases count
    · intro text member
      cases text with
      | nil => cases imaged.solid [] member
      | cons c text => rfl

end Layout

/-- The property of the segment that a line read at a level belongs to. -/
def Level.owner (level : Level) (line : Line) : Option Text :=
  match level.segment, line.shape with
  | some property, _ => some property
  | none, .segmentOpen property _ | none, .segmentInline property _ => some property
  | none, _ => none

section Images

variable {style : Sql.Style}

variable {spelled : Line → Prop} {line : Line}

theorem Line.Imaged.of_keeps {image : Text}
    (keeps : style.Keeps line.text image) (known : style.markup = true ∨ spelled line)
    (solid : allBlank line.text = false) (stays : line.shape ≠ .segmentClose) :
    line.Imaged spelled [image] where
  count := .inr ⟨fun closes => stays closes.1, rfl⟩
  solid text member := by
    rw [mem_singleton.mp member, keeps.allBlank_eq, solid]
  upper := by simpa using upper_eq_of_recased keeps.recased
  exact plain := by
    rcases known with markup | spells
    · simpa using keeps.exact markup
    · exact absurd spells plain

theorem Line.Imaged.of_squash {image : Text} (same : squash image = squash line.text)
    (solid : allBlank line.text = false) (stays : line.shape ≠ .segmentClose) :
    line.Imaged spelled [image] := by
  have keeps : Keeps ⟨[], true⟩ line.text image := .of_squash same
  exact .of_keeps keeps (.inl rfl) solid stays

/-- The lines of the body of a segment, before the text that its closing line brings. -/
theorem laid_bodyLines (blank : allBlank style.unit = true) (depth : Nat)
    {body : List Line} (contents : ∀ line ∈ body, line.shape = .segmentContent ∧
      (style.markup = true ∨ spelled line)) {origins : List Origin} {texts : List Text}
    (rest : ∀ pending, Laid spelled origins (style.bodyLines depth pending texts ++ written))
    (pending : Option Text) :
    Laid spelled (body.map .source ++ origins)
      (style.bodyLines depth pending (body.map Line.text ++ texts) ++ written) := by
  induction body generalizing pending with
  | nil => exact rest pending
  | cons line body ih =>
    obtain ⟨content, known⟩ := contents line mem_cons_self
    have later := ih (forall_mem_cons.mp contents).2
    have keeps := style.keeps_bodyLine blank depth pending line.text
    have stays : line.shape ≠ .segmentClose := by simp [content]
    cases empty : allBlank line.text with
    | true =>
      refine .blank empty (.gap ?_ (later _))
      rw [keeps.allBlank_eq, empty]
    | false =>
      have laid := Laid.source (.of_keeps keeps known empty stays)
        (later (style.bodyLine depth pending line.text).2)
      exact laid

/-- The closing line of a segment: its text, unless that is blank, and the terminator. -/
theorem laid_closing (blank : allBlank style.unit = true) (depth : Nat)
    {properties : List Text} (read : line.ReadAt properties level)
    (close : line.shape = .segmentClose) (known : style.markup = true ∨ spelled line)
    (pending : Option Text) :
    Laid spelled [.source line]
      (style.bodyLines depth pending (closingText? line.text).toList
        ++ [style.indent depth ++ terminator]) := by
  obtain ⟨before, tail, cut, blankTail, text_eq, -⟩ :=
    cutLast?_of_endsSegment (read.endsSegment_of_close close)
  have isLast := cutLast?_eq_some_iff.mp cut
  have last : squash (style.indent depth ++ terminator) = terminator := by
    rw [squash_indent blank]
    rfl
  have source : squash line.text = squash before ++ terminator := by
    rw [text_eq, squash_append, squash_append, squash_of_allBlank blankTail, append_nil]
    rfl
  have solidLast : allBlank (style.indent depth ++ terminator) = false := by
    apply Bool.eq_false_iff.mpr
    intro empty
    rw [squash_of_allBlank empty] at last
    cases last
  simp only [closingText?, cut]
  cases empty : allBlank before with
  | true =>
    have imaged : line.Imaged spelled [style.indent depth ++ terminator] :=
      { count := by
          refine .inr ⟨?_, rfl⟩
          intro closes
          obtain ⟨-, other, rest, again, solid⟩ := closes
          have same := cutLast?_eq_some_iff.mpr again
          rw [cut] at same
          cases same
          rw [empty] at solid
          cases solid
        solid := by simpa using solidLast
        upper := by simp [last, source, squash_of_allBlank empty]
        exact := fun _ => by simp [last, source, squash_of_allBlank empty] }
    have laid := Laid.source imaged .nil
    exact laid
  | false =>
    have keeps := style.keeps_bodyLine blank depth pending before
    have imaged : line.Imaged spelled
        [(style.bodyLine depth pending before).1, style.indent depth ++ terminator] :=
      { count := .inl ⟨⟨close, before, tail, isLast, empty⟩, rfl⟩
        solid := by
          intro text member
          simp only [mem_cons, not_mem_nil, or_false] at member
          rcases member with rfl | rfl
          · rw [keeps.allBlank_eq, empty]
          · exact solidLast
        upper := by
          simp only [flatten_cons, flatten_nil, append_nil, squash_append _ (_ ++ _),
            last, source, Sql.upper_append, upper_eq_of_recased keeps.recased]
        exact := by
          intro plain
          rcases known with markup | spells
          · simp only [flatten_cons, flatten_nil, append_nil,
              squash_append _ (_ ++ _), last, source, keeps.exact markup]
          · exact absurd spells plain }
    have laid := Laid.source imaged .nil
    exact laid

end Images

section Entries

variable {depth : Nat}

variable {settings : FormatSettings} {spelled : Line → Prop} {reads : Level → Line → Prop}

theorem laid_single (verbatim : Bool) {properties : List Text} {line : Line}
    (read : line.ReadAt properties (.outside depth)) :
    Laid spelled [.source line] (settings.entry verbatim (.single line)) := by
  have reading := read.reading
  have stays : line.shape ≠ .segmentClose := by
    rw [read.shape_of_outside rfl]
    exact (Shape.read_ne_segment properties line.text).2
  by_cases blank : line.shape = .blank
  · simp only [FormatSettings.entry, blank]
    refine .blank ?_ (.gap rfl .nil)
    rw [blank] at reading
    cases reading with
    | blank empty => exact trim_eq_nil_iff.mp empty
  · have solid := reading.solid blank
    obtain ⟨text, written, same⟩ := FormatSettings.exists_single settings verbatim reading blank
    rw [written]
    exact .source (.of_squash same solid stays) .nil

variable {properties : List Text}
  (known : ∀ level line, reads level line → line.ReadAt properties level ∧
    ∀ property ∈ level.owner line,
      settings.markupProperties.contains property = true ∨ spelled line)
include known

theorem laid_inline {line : Line} {property value : Text}
    (read : reads (.outside depth) line) (shape : line.shape = .segmentInline property value) :
    Laid spelled [.source line]
      ((settings.style property).segmentLines ⟨property, value, true, line, [], none⟩) := by
  obtain ⟨readAt, owned⟩ := known _ _ read
  have reading := readAt.reading
  have solid := reading.solid (by simp [shape])
  have spells := owned property (by simp [Level.owner, shape])
  have unit := settings.allBlank_unit property
  rw [shape] at reading
  cases reading with
  | segmentInline _ _ found _ ended =>
    have stripped := Layout.squash_stripTerminator (trimmed_of_property found) ended
    have head := (settings.style property).keeps_headLine unit
      ⟨property, value, true, line, [], none⟩
      ((settings.style property).keeps_restyle none (stripTerminator value))
    have last : (settings.style property).Keeps terminator (' ' :: terminator) := .of_squash rfl
    have source : squash line.text =
        squash (property ++ ':' :: stripTerminator value ++ terminator) := by
      rw [← squash_trim, squash_of_property found]
      simp [squash_cons, stripped]
      rfl
    have keeps := (head.append last).of_squash_left source
    rw [segmentLines_inline]
    exact .source (.of_keeps keeps spells solid (by simp [shape])) .nil

/-- The lines of a segment on several lines, up to its closing line. -/
theorem laid_opened {opening : Line} {property value : Text} {body : List Line}
    (read : reads (.outside depth) opening) (shape : opening.shape = .segmentOpen property value)
    (contents : ∀ line ∈ body, reads ⟨depth, some property⟩ line ∧ line.shape = .segmentContent)
    (segment : Segment) (isProperty : segment.property = property) {origins : List Origin}
    {texts : List Text} (rest : ∀ pending, Laid spelled origins
      ((settings.style property).bodyLines segment.depth pending texts ++ written)) :
    Laid spelled (.source opening :: (body.map .source ++ origins))
      ((settings.style property).headLine segment ((settings.style property).restyle none value).1
        :: ((settings.style property).bodyLines segment.depth
          ((settings.style property).restyle none value).2 (body.map Line.text ++ texts)
            ++ written)) := by
  obtain ⟨readAt, owned⟩ := known _ _ read
  have solid := readAt.reading.solid (by simp [shape])
  have spells := owned property (by simp [Level.owner, shape])
  have unit := settings.allBlank_unit property
  have inside : ∀ line ∈ body, line.shape = .segmentContent ∧
      ((settings.style property).markup = true ∨ spelled line) := by
    intro line member
    obtain ⟨readLine, content⟩ := contents line member
    exact ⟨content, (known _ _ readLine).2 property rfl⟩
  have head := (settings.style property).keeps_headLine unit segment
    ((settings.style property).keeps_restyle none value)
  have source : squash opening.text = squash (segment.property ++ ':' :: value) := by
    rw [← squash_trim, squash_of_property (readAt.property_of_segment (.inl shape)).1, isProperty]
  have imaged := Line.Imaged.of_keeps (head.of_squash_left source) spells solid (by simp [shape])
  exact .source imaged (laid_bodyLines unit _ inside rest _)

theorem laid_entries (verbatim : Bool) {entries : List Entry}
    (grouped : Entries reads depth lines entries final) :
    Laid spelled (lines.map .source) (entries.flatMap (settings.entry verbatim)) := by
  induction grouped with
  | nil => exact .nil
  | single read _ _ _ ih =>
    rw [flatMap_cons]
    exact (laid_single verbatim (known _ _ read).1).append ih
  | inline read shape _ ih =>
    rw [flatMap_cons]
    exact (laid_inline known read shape).append ih
  | @closed depth opening closing property value body lines entries final
      read shape contents readClosing close _ ih =>
      obtain ⟨readAt, owned⟩ := known _ _ readClosing
      have unit := settings.allBlank_unit property
      have ends := laid_closing unit opening.depth readAt close (owned property rfl)
      have opened := laid_opened known read shape contents
        ⟨property, value, false, opening, body, some closing⟩ rfl ends
      have laid := opened.append ih
      rw [flatMap_cons, FormatSettings.entry, segmentLines_closed]
      simpa [Segment.depth] using laid
  | @unfinished depth opening property value body read shape contents =>
    have nothing (pending : Option Text) : Laid spelled []
        ((settings.style property).bodyLines opening.depth pending [] ++ []) := .nil
    have opened := laid_opened known read shape contents
      ⟨property, value, false, opening, body, none⟩ rfl nothing
    rw [flatMap_singleton, FormatSettings.entry, segmentLines_unfinished]
    simpa [Segment.depth] using opened

theorem laid_lines (verbatim : Bool) (run : Run reads (.outside depth) lines final) :
    Laid spelled (lines.map .source) (settings.lines verbatim lines) :=
  laid_entries known verbatim (run.entries fun level line read => (known level line read).1)

theorem laid_field {field : Field} (sound : field.Sound reads final) :
    Laid spelled field.origins (settings.field field) := by
  have comments : Run reads (.outside 1) field.comments (.outside 1) := by
    apply Run.of_steady
    intro line member
    have remark := sound.remarks line member
    exact ⟨remark.read, remark.next _⟩
  unfold Field.origins Field.allLines FormatSettings.field
  rw [map_append]
  exact (laid_lines known false comments).append (laid_lines known false sound.run)

theorem laid_section {part : Section} (sound : ∀ field ∈ part.fields, ∃ final,
      field.Sound reads final) :
    Laid spelled part.origins ((settings.chunks part).flatMap fun chunk => [] :: chunk) := by
  have fields : Laid spelled (part.fields.flatMap Field.origins)
      (part.fields.flatMap fun field => [] :: settings.field field) := by
    apply Laid.flatMap
    intro field member
    obtain ⟨final, fieldSound⟩ := sound field member
    exact .gap rfl (laid_field known fieldSound)
  have trimmed (depth : Nat) {mark : Text} (solid : trim mark = mark) :
      trim (settings.indent depth ++ mark) = mark := by
    rw [trim_append_of_allBlank (settings.allBlank_indent depth), solid]
  unfold FormatSettings.chunks Section.origins Section.markers?
  cases part.category with
  | none => simpa [flatMap_map] using fields
  | some category =>
    dsimp only
    split
    · have starts := trimmed ((part.fields.head?.map Field.depth).getD 0)
        (show trim category.startMarker = category.startMarker by cases category <;> decide)
      have ends := trimmed ((part.fields.head?.map Field.depth).getD 0)
        (show trim category.endMarker = category.endMarker by cases category <;> decide)
      have laid := Laid.gap allBlank_nil (.start starts (fields.append (.finish ends .nil)))
      simpa using laid
    · simpa [flatMap_map] using fields

theorem laid_header {line : Line} (read : reads (.outside depth) line)
    (block : (∃ key name, line.shape = .blockOpen key name) ∨
      (∃ key name body, line.shape = .inlineBlock key name body) ∨ line.shape = .blockClose) :
    Laid spelled [.source line] [settings.line line] := by
  have laid : Laid spelled [.source line] (settings.entry false (.single line)) :=
    laid_single false (known _ _ read).1
  rcases block with ⟨key, name, shape⟩ | ⟨key, name, body, shape⟩ | shape <;>
    simpa only [FormatSettings.entry, shape] using laid

/-- A declaration with a block header, given its content and its closing brace. -/
theorem laid_block {declaration : Declaration} (read : reads (.outside 0) declaration.header)
    (opens : ∃ key name, declaration.header.shape = .blockOpen key name)
    (content : Run reads (.outside 1) declaration.content level)
    (fields : ∀ field ∈ declaration.fields, ∃ final, field.Sound reads final)
    (trailing : Run reads (.outside 1) declaration.trailing (.outside 1))
    (footer : ∀ line ∈ declaration.footer, reads (.outside 1) line ∧ line.shape = .blockClose) :
    Laid spelled (declaration.origins settings) (settings.declaration declaration) := by
  obtain ⟨key, name, shape⟩ := opens
  have header : Laid spelled [.source declaration.header] [settings.line declaration.header] :=
    laid_header known read (.inl ⟨key, name, shape⟩)
  have body : Laid spelled (declaration.content.map .source)
      (Layout.collapseBlankLines (settings.lines false declaration.content)) :=
    Layout.laid_collapseFrom (laid_lines known false content) false false
  have sections : Laid spelled
      ((Section.arrange settings.groupFields settings.sortFields declaration.fields).flatMap
        Section.origins)
      (((Section.arrange settings.groupFields settings.sortFields declaration.fields).flatMap
        settings.chunks).flatMap fun chunk => [] :: chunk) := by
    rw [flatMap_assoc]
    apply Laid.flatMap
    intro part inSections
    apply laid_section known
    exact fun field member => fields field (Section.mem_of_mem_arrange inSections field member)
  have after : Laid spelled (declaration.trailing.map .source)
      (if declaration.trailing.isEmpty then []
        else [] :: Layout.collapseBlankLines (settings.lines false declaration.trailing)) := by
    split
    · next empty => rw [List.isEmpty_iff.mp empty]; exact .nil
    · exact .gap rfl (Layout.laid_collapseFrom (laid_lines known false trailing) false false)
  have last : Laid spelled (declaration.footer.toList.map .source)
      (declaration.footer.toList.map settings.line) := by
    cases found : declaration.footer with
    | none => exact .nil
    | some line =>
      obtain ⟨readLine, close⟩ := footer line found
      exact laid_header known readLine (.inr (.inr close))
  have laid := (((header.append body).append sections).append after).append last
  unfold Declaration.origins Declaration.closingLines FormatSettings.declaration
  rw [shape]
  exact laid

theorem laid_item {item : Item} (sound : item.Sound reads final) :
    Laid spelled (item.origins settings) (settings.item item) := by
  cases item with
  | loose lines =>
    obtain ⟨-, run, -⟩ := sound
    exact laid_lines known true run
  | declaration found =>
    rcases sound with ⟨-, inline | closed⟩ | abandoned
    · obtain ⟨key, name, body, shape⟩ := inline.shape
      have header : Laid spelled [.source found.header] [settings.line found.header] :=
        laid_header known inline.header (.inr (.inl ⟨key, name, body, shape⟩))
      have content : found.content = [] := by rw [inline.eq]
      have fields : found.fields = [] := by rw [inline.eq]
      have trailing : found.trailing = [] := by rw [inline.eq]
      have laid : Laid spelled (found.origins settings) (settings.declaration found) := by
        unfold Declaration.origins Declaration.closingLines FormatSettings.declaration
        rw [shape, content, fields, trailing]
        exact header
      exact laid
    · refine laid_block known closed.readHeader closed.opens closed.run
        (fun field member => ⟨_, (closed.complete field member).toSound⟩) ?_ ?_
      · apply Run.of_steady
        intro line member
        rcases closed.trailing line member with remark | ⟨read, blank⟩
        · exact ⟨remark.read, remark.next _⟩
        · exact ⟨read, by rw [blank]; rfl⟩
      · obtain ⟨footer, isFooter, read, close⟩ := closed.footer
        intro line member
        rw [isFooter] at member
        cases member
        exact ⟨read, close⟩
    · obtain ⟨level, run, -⟩ := abandoned.run
      refine laid_block known abandoned.header abandoned.shape run ?_ ?_ ?_
      · intro field member
        rcases abandoned.fields field member with complete | ⟨unfinished, -⟩
        · exact ⟨_, complete.toSound⟩
        · exact ⟨_, unfinished⟩
      · rw [abandoned.trailing]
        exact .nil _
      · rw [abandoned.footer]
        exact fun line member => nomatch member

end Entries

section Sources

@[simp] theorem lines_map_source (lines : List Line) :
    (lines.map Origin.source).filterMap Origin.line? = lines := by
  rw [filterMap_map]
  exact filterMap_some

theorem lines_flatMap_origins (fields : List Field) :
    (fields.flatMap Field.origins).filterMap Origin.line? = fields.flatMap Field.allLines := by
  rw [filterMap_flatMap]
  congr 1
  funext field
  exact lines_map_source field.allLines

theorem lines_section (part : Section) :
    part.origins.filterMap Origin.line? = part.fields.flatMap Field.allLines := by
  unfold Section.origins
  cases part.category with
  | none => exact lines_flatMap_origins part.fields
  | some category =>
    dsimp only
    split
    · rw [cons_append, filterMap_cons_none rfl, filterMap_append,
        lines_flatMap_origins, filterMap_cons_none rfl, filterMap_nil, append_nil]
    · exact lines_flatMap_origins part.fields

theorem perm_item (settings : FormatSettings) (item : Item) :
    ((item.origins settings).filterMap Origin.line?).Perm item.lines := by
  cases item with
  | loose lines => exact .of_eq (lines_map_source lines)
  | declaration found =>
    have sections : (((Section.arrange settings.groupFields settings.sortFields
        found.fields).flatMap Section.origins).filterMap Origin.line?).Perm
        (found.fields.flatMap Field.allLines) := by
      rw [filterMap_flatMap, funext lines_section, ← flatMap_assoc]
      exact (Section.perm_arrange _ _ found.fields).flatMap_right _
    have whole : ((found.origins settings).filterMap Origin.line?) =
        found.header :: found.content
          ++ ((Section.arrange settings.groupFields settings.sortFields
            found.fields).flatMap Section.origins).filterMap Origin.line?
          ++ found.trailing ++ found.closingLines := by
      simp only [Declaration.origins, filterMap_append, cons_append,
        filterMap_cons, Origin.line?, lines_map_source]
    rw [Item.origins, whole]
    exact (((Perm.refl _).append sections).append_right _).append_right _

theorem perm_origins (settings : FormatSettings) (document : Document) :
    ((document.origins settings).filterMap Origin.line?).Perm document.lines := by
  unfold Document.origins Document.lines
  rw [filterMap_flatMap]
  exact Perm.flatMap_left _ fun item _ => perm_item settings item

end Sources

/-- Lines with the property of the segment that each belongs to. -/
def Level.owners : Level → List Line → List (Line × Option Text)
  | _, [] => []
  | level, line :: lines => (line, level.owner line) :: owners (level.next line.shape) lines

/-- Whether a line of a text is part of a segment of SQL. -/
def Lexed.InSql (settings : FormatSettings) (lexed : Lexed) (line : Line) : Prop :=
  ∃ property, (line, some property) ∈ (Level.outside 0).owners lexed.lines ∧
    property ∉ settings.markupProperties

theorem Run.owned {reads : Level → Line → Prop}
    (run : Run reads level lines final) (all : List (Line × Option Text))
    (within : ∀ owned ∈ level.owners lines, owned ∈ all) :
    Run (fun level line => reads level line ∧
      (line, level.owner line) ∈ all) level lines final := by
  induction run with
  | nil => exact .nil _
  | cons read _ ih =>
    refine .cons ⟨read, within _ mem_cons_self⟩ (ih ?_)
    exact (forall_mem_cons.mp within).2

/-- How the lines written for a document are made of the lines of its text. -/
structure Document.Preserved (settings : FormatSettings) (lexed : Lexed) (document : Document)
    (written : List Text) : Prop where
  /-- The lines written are the images of the lines of the document, in order, with section
  markers and blank lines between them. -/
  laid : Laid (lexed.InSql settings) (document.origins settings) written
  /-- Each line of the text is laid out once, or it is blank or a section marker. -/
  sources : ∃ omitted, ((document.origins settings).filterMap Origin.line? ++ omitted).Perm
    lexed.lines ∧ ∀ line ∈ omitted, allBlank line.text = true ∨ document.DropsMark line
  /-- No section marker of the text is laid out. -/
  unmarked : ∀ line, .source line ∈ document.origins settings → ¬document.DropsMark line
  /-- Content, comments and lines of fields stand in source order. -/
  ascending : ∀ item ∈ document.items, ∀ list ∈ item.lists, Ascending list
  /-- So do declarations and the lines between them. -/
  consecutive : document.items.Pairwise fun first second =>
    ∀ line ∈ first.lines, ∀ later ∈ second.lines, line.number < later.number

/-- Laying out the document of a text neither loses, repeats nor alters any of its code. -/
theorem FormatSettings.preserved_document (settings : FormatSettings) (text : Text) :
    (Document.ofText settings.segmentProperties text).Preserved settings
      (Lexed.ofText settings.segmentProperties text)
      (settings.document (Document.ofText settings.segmentProperties text)) := by
  let lexed := Lexed.ofText settings.segmentProperties text
  let document := Document.ofText settings.segmentProperties text
  have run := Lexed.run_ofText settings.segmentProperties text
  have ownedRun := run.owned ((Level.outside 0).owners lexed.lines) fun _ member => member
  have known : ∀ level line, (line.ReadAt settings.segmentProperties level ∧
      (line, level.owner line) ∈ (Level.outside 0).owners lexed.lines) →
      line.ReadAt settings.segmentProperties level ∧ ∀ property ∈ level.owner line,
        settings.markupProperties.contains property = true ∨ lexed.InSql settings line := by
    intro level line read
    obtain ⟨readAt, owned⟩ := read
    refine ⟨readAt, fun property owner => ?_⟩
    rw [Option.mem_def.mp owner] at owned
    by_cases markup : property ∈ settings.markupProperties
    · exact .inl (by simpa using markup)
    · exact .inr ⟨property, owned, markup⟩
  have sound := Document.sound_items (fun _ _ read => read.1) ownedRun
  obtain ⟨stretches, whole, held⟩ := Document.exists_stretches .refl run
  obtain ⟨omitted, perm, omissible⟩ := Document.exists_omitted held
  obtain ⟨lists, pairs⟩ := Document.ascending_of_held
    (whole ▸ Lexed.ascending_ofText settings.segmentProperties text) held
  rw [← whole] at perm
  have sources := perm_origins settings document
  exact
    { laid := by
        apply Laid.flatMap
        intro item member
        rcases sound item member with itemSound | itemSound
        · exact laid_item known itemSound
        · exact laid_item known itemSound
      sources := by
        refine ⟨omitted, (sources.append_right omitted).trans perm, fun line member => ?_⟩
        have inText := perm.subset (List.mem_append_right _ member)
        rcases omissible line member with blank | mark
        · obtain ⟨level, read⟩ := run.exists_of_mem inText
          have outside := read.eq_outside (by simp [blank]) (by simp [blank])
          rw [outside] at read
          have reading := read.reading
          rw [blank] at reading
          cases reading with
          | blank empty => exact .inl (trim_eq_nil_iff.mp empty)
        · exact .inr (Document.dropsMark_of_isSectionMark _ text inText mark)
      unmarked := by
        intro line member drops
        have inDocument := sources.subset (List.mem_filterMap.mpr ⟨_, member, rfl⟩)
        exact Document.noMark_ofText _ text line inDocument ⟨drops.1, drops.2.1, drops.2.2.1⟩
      ascending := lists
      consecutive := pairs }

end LookML
