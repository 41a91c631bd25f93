import LookML.Proofs.Mentions
import LookML.Proofs.Rereading
import LookML.Proofs.SegmentEdits

/-!
# Substituting a reference in a segment

A reference on a line of a segment can be written as a substitution.  The line is read as one of
the same kind again, and in the value of the segment the substitution stands in the place of the
reference.
-/

namespace LookML.Lint

open Text Code List

variable {reference : Text} (isReference : IsReference reference)

section Shapes

variable {properties : List Text} {before after word : Text}

theorem Solid.endsSegment_trim (solid : Solid word) (before after : Text) :
    endsSegment (trim (before ++ (word ++ after))) = endsSegment (trimRight after) := by
  rw [solid.trim_append, solid.endsSegment_append]

theorem Solid.filter_append {word : Text} (solid : Solid word) (before after : Text) :
    [before ++ (word ++ after)].filter (!·.isEmpty) = [before ++ (word ++ after)] := by
  refine filter_cons_of_pos ?_
  obtain ⟨c, more, rfl⟩ := exists_cons_of_ne_nil solid.occupied
  cases before <;> rfl

include isReference

theorem readInSegment_substitute (solid : Solid word) (before after : Text) :
    Shape.readInSegment (before ++ (word ++ after)) =
      (Shape.readInSegment (before ++ (reference ++ after))).revalue
        (before ++ (word ++ after)) := by
  rw [Shape.readInSegment, Shape.readInSegment, solid.endsSegment_trim,
    isReference.solid.endsSegment_trim]
  split <;> rfl

/-- A property that opens a segment does so with another word in place of a reference. -/
theorem read_substitute (solid : Solid word) {key value : Text}
    (found : property? (trim (before ++ (reference ++ after))) = some (key, value))
    (known : key ∈ properties) :
    Shape.read properties (before ++ (word ++ after)) =
      (Shape.ofSegment key value).revalue (before ++ (word ++ after)) := by
  obtain ⟨lead, inside, -, -, -, rfl, written⟩ := exists_property isReference found
  have read := (Shape.reading_of_property known (written word solid)).read_eq
  rw [read, Shape.ofSegment, Shape.ofSegment, solid.endsSegment_append,
    isReference.solid.endsSegment_append]
  split
  next =>
    rw [Shape.revalue, written word solid]
    rfl
  next =>
    rw [Shape.revalue, written word solid]
    rfl

/-- A line of a segment is read as one of its kind with another word in place of a reference. -/
theorem shape_substitute (solid : Solid word) (level : Level)
    (inSegment : (level.shape properties (before ++ (reference ++ after))).inSegment = true) :
    level.shape properties (before ++ (word ++ after)) =
      (level.shape properties (before ++ (reference ++ after))).revalue
        (before ++ (word ++ after)) := by
  obtain ⟨depth, open_⟩ := level
  cases open_ with
  | some property => exact readInSegment_substitute isReference solid before after
  | none =>
    have reading := Shape.reading_read properties (before ++ (reference ++ after))
    simp only [Level.shape] at inSegment ⊢
    generalize Shape.read properties (before ++ (reference ++ after)) = shape at *
    cases reading with
    | segmentInline _ _ found known ended =>
      have read := read_substitute isReference solid found known
      rwa [Shape.ofSegment, if_pos ended] at read
    | segmentOpen _ _ found known open_ =>
      have read := read_substitute isReference solid found known
      rwa [Shape.ofSegment, open_] at read
    | _ => cases inSegment

end Shapes

end LookML.Lint

namespace LookML

open Text Code Lint List

variable {line : Line}

/-- A segment as it is read: it begins with its property and value, and its other lines are
content up to the one that closes it. -/
structure Segment.Readable (segment : Segment) : Prop where
  opening : property? (trim segment.opening.text) = some (segment.property, segment.value)
  shape : segment.opening.shape = .segmentOpen segment.property segment.value ∨
    segment.opening.shape = .segmentInline segment.property segment.value
  body : ∀ line ∈ segment.body, line.shape = .segmentContent
  closing : ∀ line ∈ segment.closing, line.shape = .segmentClose

theorem Entries.readable {reads : Level → Line → Prop} {properties : List Text} {depth : Nat}
    {lines : List Line} {entries : List Entry} {final : Level} {segment : Segment}
    (readAt : ReadsAt properties reads)
    (grouped : Entries reads depth lines entries final)
    (member : .grouped segment ∈ entries) : segment.Readable := by
  induction grouped with
  | nil => cases member
  | single _ _ _ _ ih =>
    exact ih (by simpa using member)
  | inline read shape _ ih =>
    rcases member with _ | ⟨_, later⟩
    · exact ⟨((readAt _ _ read).property_of_segment (.inr shape)).1, .inr shape,
        fun line isLine => (nomatch isLine), fun line isLine => (nomatch isLine)⟩
    · exact ih later
  | closed read shape content _ close _ ih =>
    rcases member with _ | ⟨_, later⟩
    · refine ⟨((readAt _ _ read).property_of_segment (.inl shape)).1, .inl shape,
        fun line isLine => (content line isLine).2, fun line isLine => ?_⟩
      cases isLine
      exact close
    · exact ih later
  | unfinished read shape content =>
    cases mem_singleton.mp member
    exact ⟨((readAt _ _ read).property_of_segment (.inl shape)).1, .inl shape,
      fun line isLine => (content line isLine).2, fun line isLine => (nomatch isLine)⟩

namespace Segment.Readable

variable {segment : Segment} (readable : segment.Readable) (member : line ∈ segment.lines)
include readable member

theorem shape_cases : line = segment.opening ∨ line.shape = .segmentContent ∨
    line.shape = .segmentClose := by
  rcases mem_cons.mp member with isOpening | others
  · exact .inl isOpening
  · rcases mem_append.mp others with inBody | isClosing
    · exact .inr (.inl (readable.body line inBody))
    · exact .inr (.inr (readable.closing line (Option.mem_toList.mp isClosing)))

theorem inSegment : line.shape.inSegment = true := by
  rcases readable.shape_cases member with rfl | content | close
  · rcases readable.shape with opens | inlines
    · rw [opens]
      rfl
    · rw [inlines]
      rfl
  · rw [content]
    rfl
  · rw [close]
    rfl

/-- A line gets nothing new from its own text. -/
theorem revalue_self : line.shape.revalue line.text = line.shape := by
  rcases readable.shape_cases member with rfl | content | close
  · rcases readable.shape with opens | inlines
    · rw [opens, Shape.revalue, readable.opening]
      rfl
    · rw [inlines, Shape.revalue, readable.opening]
      rfl
  · rw [content]
    rfl
  · rw [close]
    rfl

theorem map_retext_self (ascending : Ascending segment.lines) :
    segment.map (Line.retext line.number line.text) = segment := by
  apply map_eq_self
  intro other isOther
  rw [Line.retext]
  split
  next both =>
    obtain rfl := ascending.eq_of_number isOther member both.1
    rw [readable.revalue_self isOther]
  next => rfl

end Segment.Readable

/-- The part of the value that stands on the opening line, unless it is empty. -/
def Segment.headPieces (segment : Segment) : List Text :=
  [stripTerminator segment.value].filter (!·.isEmpty)

/-- The part of the value that stands on the closing line, unless it is empty. -/
def Segment.tailPieces (segment : Segment) : List Text :=
  (segment.closing.toList.map fun line => stripTerminator line.text).filter (!·.isEmpty)

/-- The parts of the value of a segment, line by line. -/
def Segment.pieces (segment : Segment) : List Text :=
  segment.headPieces ++ segment.body.map Line.stripped ++ segment.tailPieces

/-- A reference on a line of a segment stands in one of the parts of its value, and so does any
word that is written in its place. -/
def Segment.Places (segment : Segment) (number : Nat) (reference before after : Text) : Prop :=
  ∃ earlier inside rest later,
    (∀ piece ∈ earlier, referenceIn? reference piece = none) ∧
    referenceIn? reference (inside ++ (reference ++ rest)) = some inside.length ∧
    ∀ word, Solid word →
      (segment.map (Line.retext number (before ++ (word ++ after)))).pieces =
        earlier ++ (inside ++ (word ++ rest)) :: later

section Places

variable {reference : Text} (isReference : IsReference reference) {segment : Segment}
  {number : Nat} {before after : Text}

theorem Line.map_retext (lines : List Line) (others : ∀ line ∈ lines, line.number ≠ number)
    (written : Text) : lines.map (retext number written) = lines := by
  refine (map_congr_left fun line member => ?_).trans (map_id _)
  exact retext_of_ne (others line member) written

theorem Line.text_retext (here : line.number = number)
    (inSegment : line.shape.inSegment = true) (written : Text) :
    (line.retext number written).text = written := by
  rw [retext, if_pos ⟨here, inSegment⟩]

/-- The value of a segment with another opening line is the one on that line. -/
theorem Segment.Readable.value_map (readable : segment.Readable)
    (here : segment.opening.number = number) {written value : Text}
    (found : property? (trim written) = some (segment.property, value)) :
    (segment.map (Line.retext number written)).value = value := by
  have inSegment : segment.opening.shape.inSegment = true :=
    readable.inSegment mem_cons_self
  have shape : (segment.opening.retext number written).shape =
      segment.opening.shape.revalue written := by
    rw [Line.retext, if_pos ⟨here, inSegment⟩]
  rw [map, shape]
  dsimp only
  rcases readable.shape with opens | inlines
  · rw [opens, Shape.revalue, found, Option.map_some, Option.getD_some]
    split
    next same => exact (Shape.segmentOpen.inj same).2.symm
    next => rfl
  · rw [inlines, Shape.revalue, found, Option.map_some, Option.getD_some]
    split
    next same => exact (Shape.segmentInline.inj same).2.symm
    next => rfl

theorem Segment.map_of_opening (other : segment.opening.number ≠ number) (written : Text) :
    segment.map (Line.retext number written) =
      { segment with
        body := segment.body.map (Line.retext number written)
        closing := segment.closing.map (Line.retext number written) } := by
  rw [map, Line.retext_of_ne other, if_pos rfl]

include isReference

/-- The part that the opening line gives mentions no reference if the line does not. -/
theorem Segment.Readable.quiet_value (readable : segment.Readable)
    (quiet : referenceIn? reference segment.opening.text = none) :
    referenceIn? reference (stripTerminator segment.value) = none := by
  obtain ⟨lead, space, keyed, spaced, found, -⟩ := property?_iff.mp readable.opening
  obtain ⟨left, right, leftBlank, rightBlank, whole⟩ := exists_trim segment.opening.text
  obtain ⟨inner, tail, innerBlank, margin, value⟩ := exists_stripTerminator segment.value
  have framed : Framed (left ++ (lead ++ space ++ inner)) (tail ++ [] ++ right) :=
    (Framed.of_allBlank leftBlank (.of_allBlank rightBlank)).append
      ((framed_of_isKeyed keyed spaced).append (.of_allBlank innerBlank margin))
  have same : segment.opening.text =
      (left ++ (lead ++ space ++ inner)) ++
        (stripTerminator segment.value ++ (tail ++ [] ++ right)) := by
    rw [whole, found]
    nth_rewrite 1 [value]
    simp
  rw [same, framed.referenceIn? isReference] at quiet
  exact Option.map_eq_none_iff.mp quiet

theorem Segment.Readable.quiet_pieces (readable : segment.Readable) {earlier : List Line}
    (quiet : ∀ line ∈ segment.opening :: earlier, referenceIn? reference line.text = none) :
    ∀ piece ∈ segment.headPieces ++ earlier.map Line.stripped,
      referenceIn? reference piece = none := by
  obtain ⟨inOpening, earlier⟩ := forall_mem_cons.mp quiet
  refine forall_mem_append.mpr ⟨fun piece inHead => ?_,
    forall_mem_map.mpr fun line isEarlier => referenceIn?_trim isReference (earlier line isEarlier)⟩
  rw [mem_singleton.mp (mem_of_mem_filter inHead)]
  exact readable.quiet_value isReference inOpening

variable (found : referenceIn? reference (before ++ (reference ++ after)) = some before.length)
include found

theorem Segment.Readable.places_opening (readable : segment.Readable)
    (here : segment.opening.number = number)
    (others : ∀ line ∈ segment.body ++ segment.closing.toList, line.number ≠ number)
    (isText : segment.opening.text = before ++ (reference ++ after)) :
    segment.Places number reference before after := by
  have opening := readable.opening
  rw [isText] at opening
  obtain ⟨lead, inside, framed, rfl, solidInside, -, written⟩ :=
    exists_property isReference opening
  obtain ⟨blank, isBlank, right⟩ := exists_trimRight after
  obtain ⟨tail, margin, rest⟩ := exists_unended (trimRight after)
  have place : referenceIn? reference (inside ++ (reference ++ unended (trimRight after))) =
      some inside.length := by
    have around : Framed lead (tail ++ blank) :=
      ⟨framed.dotless, framed.begins, margin.append (.of_allBlank isBlank)⟩
    apply around.referenceIn?_place isReference
    rwa [← append_assoc (unended _), ← rest, ← right]
  refine ⟨[], inside, _, segment.body.map Line.stripped ++ segment.tailPieces,
    fun line member => (nomatch member), place, fun word solid => ?_⟩
  have value := readable.value_map here (written word solid)
  have body := Line.map_retext segment.body
    (forall_mem_append.mp others).1
    (lead ++ inside ++ (word ++ after))
  have closing := Line.map_retext segment.closing.toList
    (forall_mem_append.mp others).2
    (lead ++ inside ++ (word ++ after))
  rw [pieces, headPieces, value, solid.stripTerminator_append, solidInside,
    solid.filter_append, tailPieces, map, Option.toList_map, closing, body]
  rfl

theorem Segment.Readable.places_body (readable : segment.Readable) {earlier later : List Line}
    (body : segment.body = earlier ++ line :: later)
    (here : line.number = number)
    (others : ∀ other ∈ segment.opening :: earlier ++ (later ++ segment.closing.toList),
      other.number ≠ number)
    (quiet : ∀ other ∈ segment.opening :: earlier, referenceIn? reference other.text = none) :
    segment.Places number reference before after := by
  have place := referenceIn?_place_trim isReference found
  have inSegment : line.shape.inSegment = true :=
    readable.inSegment (by simp [lines, body])
  refine ⟨segment.headPieces ++ earlier.map Line.stripped, _, _,
    later.map Line.stripped ++ segment.tailPieces, readable.quiet_pieces isReference quiet, place,
    fun word solid => ?_⟩
  have opening := others segment.opening (by simp)
  have same (lines : List Line)
      (part : lines ⊆ segment.opening :: earlier ++ (later ++ segment.closing.toList)) :
      lines.map (Line.retext number (before ++ (word ++ after))) = lines :=
    Line.map_retext lines (fun other member => others other (part member)) _
  have sameEarlier := same earlier fun _ member => by simp [member]
  have sameLater := same later fun _ member => by simp [member]
  have closing := same segment.closing.toList fun _ member => by
    simp only [mem_append, member, or_true]
  have stripped : (line.retext number (before ++ (word ++ after))).stripped =
      trimLeft before ++ (word ++ trimRight after) := by
    rw [Line.stripped, Line.text_retext here inSegment, solid.trim_append]
  rw [map_of_opening opening, pieces, headPieces, tailPieces,
    Option.toList_map, closing, body, map_append, map_cons, sameEarlier, sameLater,
    map_append, map_cons, stripped]
  simp [headPieces, tailPieces]

theorem Segment.Readable.places_closing (readable : segment.Readable)
    (closing : segment.closing = some line) (here : line.number = number)
    (others : ∀ other ∈ segment.opening :: segment.body, other.number ≠ number)
    (quiet : ∀ other ∈ segment.opening :: segment.body,
      referenceIn? reference other.text = none) :
    segment.Places number reference before after := by
  obtain ⟨lead, leadBlank, left⟩ := exists_trimLeft before
  obtain ⟨tail, margin, right⟩ := exists_unended after
  have place : referenceIn? reference (trimLeft before ++ (reference ++ unended after)) =
      some (trimLeft before).length := by
    apply (Framed.of_allBlank leadBlank margin).referenceIn?_place isReference
    rwa [← left, ← right]
  have inSegment : line.shape.inSegment = true :=
    readable.inSegment (by simp [lines, closing])
  refine ⟨segment.headPieces ++ segment.body.map Line.stripped, _, _, [],
    readable.quiet_pieces isReference quiet, place, fun word solid => ?_⟩
  have opening := others segment.opening (by simp)
  have body := Line.map_retext segment.body
    (forall_mem_cons.mp others).2 (before ++ (word ++ after))
  rw [map_of_opening opening, pieces, headPieces, tailPieces,
    closing, Option.map_some, Option.toList_some, map_singleton, body,
    Line.text_retext here inSegment, solid.stripTerminator_append, solid.filter_append]
  rfl

/-- The place of the first reference in the value of a segment, and what is written there. -/
theorem Segment.Readable.exists_place (readable : segment.Readable)
    (ascending : Ascending segment.lines) (member : line ∈ segment.lines)
    (here : line.number = number) (isText : line.text = before ++ (reference ++ after))
    (quiet : ∀ other ∈ segment.lines, other.number < number →
      referenceIn? reference other.text = none) :
    ∃ front back,
      referenceIn? reference (front ++ (reference ++ back)) = some front.length ∧
      ∀ word, Solid word →
        (segment.map (Line.retext number (before ++ (word ++ after)))).text =
          front ++ (word ++ back) := by
  have places : segment.Places number reference before after := by
    subst here
    have split {above below : List Line} (whole : segment.lines = above ++ line :: below) :
        (∀ other ∈ above, other.number ≠ line.number) ∧
          (∀ other ∈ below, other.number ≠ line.number) ∧
          ∀ other ∈ above, referenceIn? reference other.text = none := by
      obtain ⟨less, more⟩ := (whole ▸ ascending).around
      refine ⟨fun other isAbove => Nat.ne_of_lt (less other isAbove),
        fun other isBelow => Nat.ne_of_gt (more other isBelow), fun other isAbove => ?_⟩
      exact quiet other (by simp [whole, isAbove]) (less other isAbove)
    rcases mem_cons.mp member with rfl | others
    · obtain ⟨-, below, -⟩ := @split [] _ rfl
      exact readable.places_opening isReference found rfl below isText
    rcases mem_append.mp others with inBody | isClosing
    · obtain ⟨earlier, later, body⟩ := append_of_mem inBody
      obtain ⟨above, below, silent⟩ := @split (segment.opening :: earlier)
        (later ++ segment.closing.toList) (by simp [lines, body])
      exact readable.places_body isReference found body rfl
        (forall_mem_append.mpr ⟨above, below⟩) silent
    · have closing := Option.mem_toList.mp isClosing
      obtain ⟨above, -, silent⟩ := @split (segment.opening :: segment.body) []
        (by simp [lines, Option.mem_def.mp closing])
      exact readable.places_closing isReference found closing rfl above silent
  obtain ⟨earlier, inside, rest, later, silent, place, pieces⟩ := places
  obtain ⟨front, back, first, joined⟩ := exists_joined isReference silent place
  refine ⟨front, back, first, fun word solid => ?_⟩
  rw [← joined word solid, ← pieces word solid]
  rfl

end Places

section Tidying

variable {properties : List Text}

theorem Segment.lines_map (relabel : Line → Line) (segment : Segment) :
    (segment.map relabel).lines = segment.lines.map relabel := by
  cases closing : segment.closing <;> simp [lines, map, closing]

theorem Entry.property?_map {row : Nat → Nat} {relabel : Line → Line}
    (renumbers : Line.Renumbers row relabel) (depth : Nat) (entry : Entry) :
    (entry.map relabel).property? depth = entry.property? depth := by
  cases entry with
  | single line =>
    rw [map, property?, property?, renumbers.depth, renumbers.shape]
  | grouped segment =>
    have same : (segment.map relabel).depth = segment.depth := renumbers.depth segment.opening
    rw [map, property?, property?, same, Segment.text_map renumbers]
    rfl

/-- The segment of a property among lines without the blanks around them. -/
theorem Lexed.segment?_strip {lexed stripped : Lexed}
    (lines : stripped.lines = lexed.lines.map Line.strip) (start : Nat) (key : Text) :
    stripped.segment? start key = (lexed.segment? start key).map (Segment.map Line.strip) := by
  have renumbers := Line.renumbers_strip
  have tests : (fun entry : Entry => decide (entry.opening.number ≠ start)) ∘
      Entry.map Line.strip = fun entry => decide (entry.opening.number ≠ start) := by
    funext entry
    cases entry <;> rfl
  rw [segment?, segment?, lines, Entry.group_map renumbers.toRelabels, dropWhile_map, tests]
  cases (Entry.group lexed.lines).dropWhile fun entry => decide (entry.opening.number ≠ start) with
  | nil => rfl
  | cons entry rest =>
    cases entry with
    | grouped segment => rfl
    | single header =>
      have found : (fun entry : Entry =>
          (entry.property? (header.depth + 1)).any (·.1 = key)) ∘ Entry.map Line.strip =
          fun entry => (entry.property? (header.depth + 1)).any (·.1 = key) := by
        funext entry
        rw [Function.comp, Entry.property?_map renumbers]
      have isSegment (entry : Entry) :
          (entry.map Line.strip).segment? = entry.segment?.map (Segment.map Line.strip) := by
        cases entry <;> rfl
      have strip : header.strip.depth = header.depth ∧ header.strip.shape = header.shape :=
        ⟨rfl, rfl⟩
      rw [map_cons, Entry.map]
      dsimp only
      rw [strip.1, strip.2]
      split
      next =>
        rw [Entry.cutAtClose_map renumbers.toRelabels, find?_map, found, Option.bind_map]
        cases (Entry.cutAtClose (header.depth + 1) rest).1.find? fun entry =>
          (entry.property? (header.depth + 1)).any (·.1 = key) with
        | none => rfl
        | some entry => exact isSegment entry
      next => rfl

end Tidying

section Documents

variable {properties : List Text} {reference : Text} (isReference : IsReference reference)
  {text again : Text} {upper lower : List Text} {before after : Text}

theorem Text.tidy_ne_nil {line : Text}
    (lines : text.lines.map trim = (upper ++ line :: lower).map trim) (occupied : trim line ≠ []) :
    text.tidy ≠ [] := by
  rw [tidy, lines, map_append, map_cons, joinLines_append_cons]
  intro empty
  exact occupied (append_eq_nil_iff.mp (append_eq_nil_iff.mp empty).2).1

theorem Lint.Solid.trim_ne_nil {word : Text} (solid : Solid word) (before after : Text) :
    trim (before ++ (word ++ after)) ≠ [] := by
  rw [solid.trim_append]
  intro empty
  exact solid.occupied (append_eq_nil_iff.mp (append_eq_nil_iff.mp empty).2).1

/-- The line with a number in a text without the blanks around its lines. -/
theorem Lexed.exists_trim_of_number (occupied : text.tidy ≠ [])
    (member : line ∈ (ofText properties text.tidy).lines) :
    ∃ origin, text.lines[line.number]? = some origin ∧ line.text = trim origin := by
  have isText := getElem?_text (getElem?_number member)
  rw [Text.lines_tidy occupied, getElem?_map] at isText
  obtain ⟨origin, isOrigin, same⟩ := Option.map_eq_some_iff.mp isText
  exact ⟨origin, isOrigin, same.symm⟩

variable (split : text.lines = upper ++ (before ++ (reference ++ after)) :: lower)
  (lines : again.lines.map trim =
    (upper ++ (before ++ (substitution reference ++ after)) :: lower).map trim)
include isReference split lines

/-- A reference on a line of a segment is substituted: the lines of the text stay what they are,
but for the text of that one. -/
theorem Lexed.lines_substituted
    (member : line ∈ (ofText properties text.tidy).lines) (here : line.number = upper.length)
    (inSegment : line.shape.inSegment = true) :
    (ofText properties again.tidy).lines = (ofText properties text.tidy).lines.map
      (Line.retext upper.length
        (trimLeft before ++ (substitution reference ++ trimRight after))) := by
  have solid := isReference.solid_substitution
  have occupied := Text.tidy_ne_nil (congrArg (List.map trim) split)
    (isReference.solid.trim_ne_nil before after)
  have occupied' := Text.tidy_ne_nil lines (solid.trim_ne_nil before after)
  obtain ⟨above, below, whole, length, -⟩ := exists_above_below member
  -- The lines around it are those of the two texts.
  have texts : above.map Line.text ++ line.text :: below.map Line.text =
      upper.map trim ++ trim (before ++ (reference ++ after)) :: lower.map trim := by
    have both := Lexed.text_ofText properties text.tidy
    rw [whole,
      Text.lines_tidy occupied, split] at both
    simpa using both
  obtain ⟨sameAbove, rest⟩ := append_inj texts (by simpa [length] using here)
  obtain ⟨isText, sameBelow⟩ := cons.inj rest
  rw [isReference.solid.trim_append] at isText
  rw [← here]
  apply lines_retext whole inSegment
  · intro level shape
    have kept := @shape_substitute reference isReference properties (trimLeft before)
      (trimRight after) _ solid level
    rw [← isText, shape] at kept
    exact kept inSegment
  · rw [Text.lines_tidy occupied', lines, map_append, map_cons, solid.trim_append,
      sameAbove, sameBelow]

/-- A reference in a segment is substituted where it is mentioned first, and of the properties of
all blocks only the one whose value it is changes. -/
theorem Document.exists_substituted {start : Nat} {key : Text} {segment : Segment}
    (found : (Lexed.ofText properties text).segment? start key = some segment)
    (holds : upper.length ∈ segment.lines.map Line.number)
    (place : referenceIn? reference (before ++ (reference ++ after)) = some before.length)
    (quiet : ∀ line ∈ upper.drop start, referenceIn? reference line = none) :
    ∃ front back, segment.text = front ++ (reference ++ back) ∧
      referenceIn? reference segment.text = some front.length ∧
      KeepsValues (Revalued start key segment.text segment.text)
        (ofText properties text.tidy).nodes
        (ofText properties text.tidy).nodes ∧
      ∃ rewrite, Line.Rewrites rewrite ∧
        (Lexed.ofText properties again.tidy).lines =
          (Lexed.ofText properties text.tidy).lines.map rewrite ∧
        KeepsValues
          (Revalued start key segment.text (front ++ (substitution reference ++ back)))
          (ofText properties text.tidy).nodes
          (ofText properties again.tidy).nodes := by
  have occupied := Text.tidy_ne_nil (congrArg (List.map trim) split)
    (isReference.solid.trim_ne_nil before after)
  have found' := Lexed.segment?_strip (@Lexed.lines_tidy _ properties occupied) start key
  rw [found, Option.map_some] at found'
  rw [← Segment.text_map Line.renumbers_strip]
  have holds' : upper.length ∈ (segment.map Line.strip).lines.map Line.number := by
    rw [Segment.lines_map, map_map]
    exact holds
  generalize segment.map Line.strip = tidied at *
  obtain ⟨front, header, rest, earlier, later, held⟩ := Lexed.exists_of_segment? found'
  have grouped := Run.entries .refl (Lexed.run_ofText properties text.tidy)
  have readable := grouped.readable .refl held.mem_group
  obtain ⟨inLines, ascending⟩ :=
    grouped.lines_of_grouped (Lexed.ascending_ofText properties text.tidy) held.mem_group
  obtain ⟨line, member, here⟩ := mem_map.mp holds'
  have isText : line.text = trimLeft before ++ (reference ++ trimRight after) := by
    obtain ⟨origin, isOrigin, same⟩ := Lexed.exists_trim_of_number occupied (inLines member)
    rw [split, here, getElem?_append_right (Nat.le_refl _), Nat.sub_self] at isOrigin
    cases isOrigin
    rw [same, isReference.solid.trim_append]
  have silent : ∀ other ∈ tidied.lines, other.number < upper.length →
      referenceIn? reference other.text = none := by
    intro other isOther above
    obtain ⟨origin, isOrigin, same⟩ := Lexed.exists_trim_of_number occupied (inLines isOther)
    rw [split, getElem?_append_left above] at isOrigin
    rw [same]
    apply referenceIn?_trim isReference
    apply quiet
    have behind := held.lt_number other isOther
    refine mem_iff_getElem?.mpr ⟨other.number - start, ?_⟩
    rw [getElem?_drop, Nat.add_sub_cancel' (Nat.le_of_lt behind), isOrigin]
  obtain ⟨first, last, isFirst, written⟩ := readable.exists_place isReference
    (referenceIn?_place_trim isReference place) ascending member here isText silent
  have value : tidied.text = first ++ (reference ++ last) := by
    have same := readable.map_retext_self member ascending
    rw [here, isText] at same
    rw [← written reference isReference.solid, same]
  have rewritten := Lexed.lines_substituted isReference split lines (inLines member) here
    (readable.inSegment member)
  refine ⟨first, last, value, by rw [value]; exact isFirst, keepsValues_self found', _,
    Line.rewrites_retext _ _, rewritten, ?_⟩
  have kept := keepsValues_segment (Line.rewrites_retext _ _) rewritten found' holds'
    fun other elsewhere => Line.retext_of_ne elsewhere _
  rwa [written _ isReference.solid_substitution] at kept

end Documents

end LookML
