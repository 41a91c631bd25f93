import LookML.Proofs.Fidelity

/-!
# Comments behind a line

A comment behind a brace or a terminator is no part of the code of its line: with it or without
it the line is of the same kind, with the same key and name, and so is every other line.  The
exception are segments on one line, whose value is read to the end of the line: with a comment
behind it the terminator is not seen, and the segment stays open.
-/

namespace LookML

open Text Code List

variable {text : Text}

namespace Code

variable {c : Char}

/-- A code that a comment can follow ends in a brace or in the sign of terminators. -/
theorem exists_last_of_admitsComment {code : Text} (admits : admitsComment code = true) :
    ∃ lead c, code = lead ++ [c] ∧ (c = '{' ∨ c = '}' ∨ c = ';') := by
  simp only [admitsComment, endsSegment, terminator, Bool.or_eq_true,
    isSuffixOf_iff_suffix] at admits
  rcases admits with (⟨lead, rfl⟩ | ⟨lead, rfl⟩) | ⟨lead, rfl⟩
  · exact ⟨lead, '{', rfl, .inl rfl⟩
  · exact ⟨lead, '}', rfl, .inr (.inl rfl)⟩
  · exact ⟨lead ++ [';'], ';', by simp, .inr (.inr rfl)⟩

/-- A property in front of more text on its line: its value goes on to the end. -/
theorem property?_append (lead : Text) {extra : Text} (mark : c = '{' ∨ c = '}' ∨ c = ';')
    (single : '\n' ∉ extra) :
    property? (lead ++ [c] ++ extra) =
      (property? (lead ++ [c])).map fun (key, value) => (key, value ++ extra) := by
  have signs : isBlank c = false ∧ isWord c = false ∧ c ≠ ':' ∧ c ≠ '/' := by
    rcases mark with rfl | rfl | rfl <;> decide
  obtain ⟨solid, noWord, noColon, noSlash⟩ := signs
  have keys (extra : Text) : key? (lead ++ c :: extra) =
      (key? lead).map fun (key, rest) => (key, rest ++ c :: extra) :=
    key?_append allBlank_nil solid noWord noColon lead extra
  have slashes (front extra : Text) : ['/', '/'].isPrefixOf (front ++ c :: extra) =
      ['/', '/'].isPrefixOf front :=
    isPrefixOf_slashes_append front (by simpa using noSlash)
  rw [append_assoc, singleton_append]
  cases found : key? lead with
  | none =>
    simp only [property?, keys, found, Option.map_none, Option.bind_eq_bind, Option.bind_none]
  | some parts =>
    obtain ⟨key, front⟩ := parts
    have breaks : (trimLeft front ++ c :: extra).contains '\n' =
        (trimLeft front ++ [c]).contains '\n' := by
      simp [single]
    simp only [property?, keys, found, Option.map_some, Option.bind_eq_bind, Option.bind_some,
      slashes, trimLeft_append_of_solid solid, breaks]
    split
    · rfl
    · split <;> simp

/-- Blanks and a comment on one line, without the sign of terminators. -/
structure IsAnnotation (extra : Text) : Prop where
  parts : ∃ gap comment, gap ≠ [] ∧ allBlank gap = true ∧ IsComment comment ∧ extra = gap ++ comment
  single : '\n' ∉ extra
  unended : ';' ∉ extra

theorem splitComment_of_plain {code : Text} (plain : '#' ∉ code) :
    splitComment code = (code, none) := by
  rcases splitComment_cases code with whole | ⟨front, comment, gap, -, isComment, -, -, same, -⟩
  · exact whole
  · rw [same] at plain
    have mark := mem_of_head? isComment.mark
    exact absurd (mem_append_right _ (mem_append_right _ mark)) plain

variable {code extra : Text}

theorem IsAnnotation.splitComment_append (added : IsAnnotation extra) (plain : '#' ∉ code)
    (admits : admitsComment code = true) : (splitComment (code ++ extra)).1 = code := by
  obtain ⟨gap, comment, occupied, blank, isComment, rfl⟩ := added.parts
  obtain ⟨c, last, solid⟩ := last_of_admitsComment admits
  have cut : cutComment? (code ++ (gap ++ comment)) = some (code, comment) := by
    rw [cutComment?_append plain (solid_last last solid),
      cutComment?_comment occupied blank isComment]
    simp [prepend]
  rw [splitComment, cut]
  simp [admits]

theorem IsAnnotation.endsSegment_append (added : IsAnnotation extra) (value : Text) :
    endsSegment (value ++ extra) = false := by
  obtain ⟨gap, comment, occupied, -, -, same⟩ := added.parts
  obtain ⟨front, d, rfl⟩ := (eq_nil_or_concat extra).resolve_left (by simp [same, occupied])
  have other : d ≠ ';' := by
    rintro rfl
    exact added.unended (by simp)
  rw [Bool.eq_false_iff, endsSegment, concat_eq_append]
  intro ends
  obtain ⟨lead, whole⟩ := isSuffixOf_iff_suffix.mp ends
  have last : (lead ++ [';']) ++ [';'] = (value ++ front) ++ [d] := by
    simpa [terminator] using whole
  exact other (singleton_inj.mp (append_inj' last rfl).2).symm

end Code

namespace Text

variable {line : Text}

/-- The text with more characters at the end of one of its lines. -/
def appendToLine (extra : Text) : Nat → Text → Text
  | 0, [] => extra
  | _ + 1, [] => []
  | 0, '\r' :: '\n' :: text => extra ++ '\r' :: '\n' :: text
  | number + 1, '\r' :: '\n' :: text => '\r' :: '\n' :: appendToLine extra number text
  | 0, c :: text => if c = '\n' then extra ++ '\n' :: text else c :: appendToLine extra 0 text
  | number + 1, c :: text =>
    if c = '\n' then '\n' :: appendToLine extra number text
    else c :: appendToLine extra (number + 1) text

/-- Characters other than line feeds at the beginning of a text that begins with a line break.
If the last of them is a carriage return, it may become a part of the break. -/
theorem splitBreaks_append_break {after : Text} {lines : List Text} (single : '\n' ∉ line)
    (breaks : splitBreaks after = [] :: lines) :
    ∃ again, (line = again ∨ line = again ++ ['\r']) ∧
      splitBreaks (line ++ after) = again :: lines := by
  induction line with
  | nil => exact ⟨[], .inl rfl, breaks⟩
  | cons c line ih =>
    simp only [mem_cons, not_or] at single
    obtain ⟨again, same, rest⟩ := ih single.2
    by_cases joins : c = '\r' ∧ (line ++ after).head? = some '\n'
    · obtain ⟨rfl, head⟩ := joins
      cases line with
      | cons d line => simp_all
      | nil =>
        obtain ⟨text, rfl⟩ := head?_eq_some_iff.mp head
        rw [splitBreaks_feed] at breaks
        refine ⟨[], .inr rfl, ?_⟩
        rw [← breaks]
        rfl
    · refine ⟨c :: again, ?_, splitBreaks_cons_of_inner (Ne.symm single.1) ?_ rest⟩
      · rcases same with rfl | rfl
        · exact .inl rfl
        · exact .inr rfl
      · exact fun return_ head => joins ⟨return_, head⟩

theorem noFeed_of_apart {c : Char} (apart : ∀ rest, c = '\r' → text = '\n' :: rest → False) :
    c = '\r' → text.head? ≠ some '\n' := by
  intro return_ head
  obtain ⟨rest, same⟩ := head?_eq_some_iff.mp head
  exact apart rest return_ same

variable {extra : Text} {number : Nat}

theorem head_appendToLine (starts : extra.head? = some ' ') (other : text.head? ≠ some '\n') :
    (appendToLine extra number text).head? ≠ some '\n' := by
  fun_cases appendToLine extra number text <;> simp_all

theorem appendToLine_ne_nil (occupied : text ≠ []) : appendToLine extra number text ≠ [] := by
  fun_cases appendToLine extra number text <;> simp_all

/-- A list cut at one of its places. -/
theorem exists_of_getElem? {α : Type} {items : List α} {item : α} {number : Nat}
    (found : items[number]? = some item) :
    ∃ before after, items = before ++ item :: after ∧ before.length = number := by
  obtain ⟨inside, rfl⟩ := List.getElem?_eq_some_iff.mp found
  refine ⟨items.take number, items.drop (number + 1), by simp, ?_⟩
  rw [length_take]
  omega

theorem feedless_splitBreaks (text : Text) : ∀ piece ∈ splitBreaks text, '\n' ∉ piece := by
  induction text using splitBreaks.induct with
  | case1 => simp [splitBreaks]
  | case2 text ih => simpa [splitBreaks] using ih
  | case3 text apart ih => simpa [splitBreaks_feed] using ih
  | case4 c text apart inner none_ => exact absurd none_ (splitBreaks_ne_nil text)
  | case5 c text apart inner first lines pieces ih =>
    rw [splitBreaks_cons_of_inner inner (noFeed_of_apart apart) pieces]
    rw [pieces, forall_mem_cons] at ih
    refine forall_mem_cons.mpr ⟨?_, ih.2⟩
    simp only [mem_cons, not_or]
    exact ⟨Ne.symm inner, ih.1⟩

theorem feedless_lines (text : Text) : ∀ line ∈ text.lines, '\n' ∉ line := by
  intro line member
  rw [lines] at member
  split at member
  · cases member
  · exact feedless_splitBreaks text line member

/-- What is written at the end of a line changes that line alone. -/
theorem splitBreaks_appendToLine {before after : List Text}
    (starts : extra.head? = some ' ') (single : '\n' ∉ extra)
    (whole : splitBreaks text = before ++ line :: after) (count : before.length = number) :
    ∃ again, (line ++ extra = again ∨ line ++ extra = again ++ ['\r']) ∧
      splitBreaks (appendToLine extra number text) = before ++ again :: after := by
  fun_induction appendToLine extra number text generalizing before line with
  | case1 =>
    obtain rfl := length_eq_zero_iff.mp count
    cases whole
    obtain ⟨again, same, written⟩ := splitBreaks_append_break single (splitBreaks.eq_1)
    exact ⟨again, same, append_nil extra ▸ written⟩
  | case2 =>
    have short := congrArg List.length whole
    simp only [splitBreaks, length_append, length_cons, length_nil, count] at short
    omega
  | case3 text =>
    obtain rfl := length_eq_zero_iff.mp count
    cases whole
    exact splitBreaks_append_break single rfl
  | case4 number text ih =>
    obtain ⟨first, before, rfl⟩ := exists_cons_of_length_eq_add_one count
    obtain ⟨rfl, rest⟩ := cons.inj whole
    obtain ⟨again, same, written⟩ := ih rest (Nat.succ.inj count)
    refine ⟨again, same, ?_⟩
    rw [splitBreaks, written]
    rfl
  | case5 text =>
    obtain rfl := length_eq_zero_iff.mp count
    rw [splitBreaks_feed] at whole
    cases whole
    exact splitBreaks_append_break single (splitBreaks_feed text)
  | case6 c text apart inner ih =>
    obtain rfl := length_eq_zero_iff.mp count
    obtain ⟨first, lines, pieces⟩ := exists_cons_of_ne_nil (splitBreaks_ne_nil text)
    have noFeed := noFeed_of_apart apart
    rw [splitBreaks_cons_of_inner inner noFeed pieces] at whole
    cases whole
    obtain ⟨again, same, written⟩ := ih (pieces.trans (nil_append _).symm) rfl
    refine ⟨c :: again, same.imp (congrArg (List.cons c)) (congrArg (List.cons c)), ?_⟩
    exact splitBreaks_cons_of_inner inner
      (fun return_ => head_appendToLine starts (noFeed return_)) written
  | case7 number text apart ih =>
    obtain ⟨first, before, rfl⟩ := exists_cons_of_length_eq_add_one count
    rw [splitBreaks_feed] at whole
    obtain ⟨rfl, rest⟩ := cons.inj whole
    obtain ⟨again, same, written⟩ := ih rest (Nat.succ.inj count)
    refine ⟨again, same, ?_⟩
    rw [splitBreaks_feed, written]
    rfl
  | case8 number c text apart inner ih =>
    obtain ⟨first, before, rfl⟩ := exists_cons_of_length_eq_add_one count
    obtain ⟨piece, lines, pieces⟩ := exists_cons_of_ne_nil (splitBreaks_ne_nil text)
    have noFeed := noFeed_of_apart apart
    rw [splitBreaks_cons_of_inner inner noFeed pieces] at whole
    obtain ⟨rfl, rfl⟩ := cons.inj whole
    obtain ⟨again, same, written⟩ := ih (pieces.trans (cons_append).symm) count
    refine ⟨again, same, ?_⟩
    exact splitBreaks_cons_of_inner inner
      (fun return_ => head_appendToLine starts (noFeed return_)) written

end Text

/-- A comment written behind a text that is not blank. -/
theorem Text.exists_trim_append {comment : Text} (solid : trim text ≠ [])
    (single : '\n' ∉ text) (unquoted : comment.any isQuote = false)
    (singleComment : '\n' ∉ comment) (unended : ';' ∉ comment) :
    ∃ extra, IsAnnotation extra ∧ trim (text ++ " # ".toList ++ comment) = trim text ++ extra := by
  obtain ⟨lead, tail, blankLead, blankTail, whole⟩ := exists_trim text
  have trimmed := trimmed_trim text
  have kept : ∀ c ∈ trimRight (' ' :: comment), c = ' ' ∨ c ∈ comment := by
    obtain ⟨rest, -, same⟩ := exists_trimRight (' ' :: comment)
    intro c member
    apply mem_cons.mp
    rw [same]
    exact mem_append_left _ member
  have absent {c : Char} (noTail : c ∉ tail) (noSpace : c ≠ ' ') (noMark : c ≠ '#')
      (noComment : c ∉ comment) :
      c ∉ tail ++ [' '] ++ '#' :: trimRight (' ' :: comment) := by
    simp only [mem_append, mem_cons, not_mem_nil, noTail, noSpace, noMark, false_or]
    intro member
    exact (kept c member).elim noSpace noComment
  refine ⟨tail ++ [' '] ++ '#' :: trimRight (' ' :: comment), ⟨?_, ?_, ?_⟩, ?_⟩
  · refine ⟨tail ++ [' '], _, by simp, by simp [blankTail], ⟨rfl, ?_⟩, rfl⟩
    rw [any_eq_false] at unquoted ⊢
    intro c member
    rcases mem_cons.mp member with rfl | inside
    · decide
    · rcases kept c inside with rfl | inComment
      · decide
      · exact unquoted c inComment
  · refine absent (fun member => single ?_) (by decide) (by decide) singleComment
    rw [whole]
    exact mem_append_right _ member
  · exact absent (not_mem_of_allBlank blankTail rfl) (by decide) (by decide) unended
  · have split : text ++ " # ".toList ++ comment =
        lead ++ (trim text ++ (tail ++ [' ', '#'] ++ ' ' :: comment)) := by
      conv_lhs => rw [whole]
      simp
    have head : ∀ c ∈ (trim text ++ (tail ++ [' ', '#'] ++ ' ' :: comment)).head?,
        isBlank c = false := by
      rw [head?_append_of_ne_nil _ solid]
      exact trimmed.head
    have mark : ∀ c ∈ (tail ++ [' ', '#']).getLast?, isBlank c = false :=
      solid_last (c := '#') (by simp) rfl
    rw [split, trim_append_of_allBlank blankLead, trim, trimLeft_of_head head,
      trimRight_append_of_last trimmed.last, trimRight_append_of_last mark]
    simp

namespace Shape

/-- What becomes of a line outside segments if a comment is written behind it. -/
def annotated (extra : Text) : Shape → Shape
  | .property key value => .property key (value ++ extra)
  | .segmentOpen key value | .segmentInline key value => .segmentOpen key (value ++ extra)
  | shape => shape

variable {properties : List Text} {other extra : Text}

theorem read_annotated (added : IsAnnotation extra) (plain : '#' ∉ trim text)
    (admits : admitsComment (trim text) = true) (written : trim other = trim text ++ extra) :
    read properties other = (read properties text).annotated extra := by
  apply Reading.read_eq
  have split : (splitComment (trim other)).1 = (splitComment (trim text)).1 := by
    rw [written, added.splitComment_append plain admits, splitComment_of_plain plain]
  have found : property? (trim other) =
      (property? (trim text)).map fun (key, value) => (key, value ++ extra) := by
    obtain ⟨lead, c, ends, mark⟩ := exists_last_of_admitsComment admits
    rw [written, ends]
    exact property?_append lead mark added.single
  have code (isCode : IsCode (trim text)) : IsCode (trim other) := by
    obtain ⟨c, head, noMark⟩ := isCode
    refine ⟨c, ?_, noMark⟩
    rw [written, head?_append, Option.mem_def.mp head]
    rfl
  have free (unknown : ∀ key value, property? (trim text) = some (key, value) → key ∉ properties) :
      ∀ key value, property? (trim other) = some (key, value) → key ∉ properties := by
    intro key value isProperty
    rw [found] at isProperty
    obtain ⟨⟨key', value'⟩, here, same⟩ := Option.map_eq_some_iff.mp isProperty
    cases same
    exact unknown _ _ here
  have reading := reading_read properties text
  generalize read properties text = shape at reading
  cases reading with
  | blank empty =>
    rw [empty] at admits
    cases admits
  | comment mark => exact absurd (mem_of_head? mark) plain
  | blockClose isCode closes => exact .blockClose (code isCode) (by rw [split, closes])
  | segmentInline isCode stays here known | segmentOpen isCode stays here known =>
    exact .segmentOpen (code isCode) (by rw [split, stays]) (by rw [found, here]; rfl) known
      (added.endsSegment_append _)
  | blockOpen isCode stays unknown brace opened =>
    exact .blockOpen (code isCode) (by rw [split, stays]) (free unknown) (by rw [split, brace])
      (by rw [split, opened])
  | inlineBlock isCode stays unknown noBrace block =>
    exact .inlineBlock (code isCode) (by rw [split, stays]) (free unknown)
      (by rw [split, noBrace])
      (by rw [split, block])
  | property isCode stays here unknown noBrace noBlock =>
    exact .property (code isCode) (by rw [split, stays]) (by rw [found, here]; rfl) unknown
      (by rw [split, noBrace]) (by rw [split, noBlock])
  | content isCode stays absent noBrace noBlock =>
    exact .content (code isCode) (by rw [split, stays]) (by rw [found, absent]; rfl)
      (by rw [split, noBrace]) (by rw [split, noBlock])

variable (extra : Text) (shape : Shape)

@[simp] theorem key?_annotated : (shape.annotated extra).key? = shape.key? := by
  cases shape <;> rfl

@[simp] theorem name?_annotated : (shape.annotated extra).name? = shape.name? := by
  cases shape <;> rfl

theorem word_annotated_iff :
    (shape.annotated extra).word = shape.word ↔ ∀ key value, shape ≠ .segmentInline key value := by
  cases shape <;> simp [annotated, word]

end Shape

/-- The kind, the depth, the key and the name of a line. -/
def Line.frame (line : Line) : String × Nat × Option Text × Option Text :=
  (line.shape.word, line.depth, line.shape.key?, line.shape.name?)

section Annotated

variable {line other : Line} {extra : Text} (number : other.number = line.number)
  (shape : other.shape = line.shape.annotated extra)
  (noInline : ∀ key value, line.shape ≠ .segmentInline key value)
include number shape noInline

theorem Nesting.advance_annotated (nesting : Nesting) :
    nesting.advance other = nesting.advance line := by
  unfold advance
  rw [shape, number]
  cases read : line.shape with
  | segmentInline key value => exact absurd read (noInline key value)
  | _ => rfl

omit noInline in
theorem Line.anomaly?_annotated (depth : other.depth = line.depth)
    (code : (splitComment other.stripped).1 = (splitComment line.stripped).1) :
    other.anomaly? = line.anomaly? := by
  unfold anomaly?
  rw [shape, number, depth, code]
  cases line.shape <;> rfl

end Annotated

/-- A text with a comment behind one of its lines. -/
def Text.annotate (text : Text) (number : Nat) (comment : Text) : Text :=
  appendToLine (" # ".toList ++ comment) number text

/-- A comment that can be written behind a line: it has no quotes, stays on the line and ends
no segment. -/
structure Text.IsNote (comment : Text) : Prop where
  unquoted : comment.any isQuote = false
  single : '\n' ∉ comment
  unended : ';' ∉ comment

/-- A line outside segments that a comment can follow. -/
structure Lexed.Annotatable (lexed : Lexed) (number : Nat) (line : Line) : Prop where
  found : lexed.lines[number]? = some line
  outside : ((lexed.lines.take number).foldl Nesting.advance {}).segment = none
  plain : '#' ∉ line.stripped
  admits : admitsComment line.stripped = true

section Lines

variable {properties : List Text} {comment : Text} {number : Nat} {line : Line}

theorem Text.lines_annotate {before after : List Text} {written : Text} (note : comment.IsNote)
    (whole : text.lines = before ++ written :: after) (count : before.length = number) :
    ∃ again, trim again = trim (written ++ " # ".toList ++ comment) ∧
      (text.annotate number comment).lines = before ++ again :: after := by
  have occupied : text ≠ [] := by
    rintro rfl
    have short := congrArg List.length whole
    simp [lines] at short
  have starts : (" # ".toList ++ comment).head? = some ' ' := rfl
  have single : '\n' ∉ " # ".toList ++ comment := by simp [note.single]
  rw [lines_of_ne_nil occupied] at whole
  obtain ⟨again, same, split⟩ := splitBreaks_appendToLine starts single whole count
  refine ⟨again, ?_, ?_⟩
  · rw [append_assoc]
    rcases same with same | same
    · rw [same]
    · rw [same, ← trim_trimRight (again ++ ['\r']), trimRight_append_of_allBlank (by decide),
        trim_trimRight]
  · rw [annotate, lines_of_ne_nil (appendToLine_ne_nil occupied), split]

theorem Lexed.exists_annotated (annotatable : (ofText properties text).Annotatable number line)
    (note : comment.IsNote) :
    ∃ (front : List Line) (other : Line) (extra : Text) (nesting : Nesting) (after : List Text),
      (ofText properties text).lines =
        front ++ line :: (nesting.advance line).classify properties (number + 1) after ∧
      (ofText properties (text.annotate number comment)).lines =
        front ++ other :: (nesting.advance other).classify properties (number + 1) after ∧
      other.number = line.number ∧ other.depth = line.depth ∧
      other.shape = line.shape.annotated extra ∧
      (splitComment other.stripped).1 = (splitComment line.stripped).1 := by
  obtain ⟨before, after, whole, rfl⟩ := exists_of_getElem? (getElem?_text annotatable.found)
  obtain ⟨again, trimmed, written⟩ := Text.lines_annotate note whole rfl
  let front := ({} : Nesting).classify properties 0 before
  let nesting := front.foldl Nesting.advance {}
  have count : front.length = before.length := Nesting.length_classify properties {} 0 before
  have lines (written : Text) : ({} : Nesting).classify properties 0 (before ++ written :: after) =
      front ++ nesting.line properties before.length written ::
        (nesting.advance (nesting.line properties before.length written)).classify properties
          (before.length + 1) after := by
    rw [Nesting.classify_append, Nat.zero_add]
    rfl
  have here : (ofText properties text).lines = _ := (congrArg _ whole).trans (lines line.text)
  have there : (ofText properties (text.annotate before.length comment)).lines = _ :=
    (congrArg _ written).trans (lines again)
  have isLine : nesting.line properties before.length line.text = line := by
    have found := annotatable.found
    rw [here, getElem?_append_right (by omega), count, Nat.sub_self] at found
    exact Option.some.inj found
  have outside : nesting.segment = none := by
    have outside := annotatable.outside
    rwa [here, ← count, take_left] at outside
  have read (written : Text) : (nesting.line properties before.length written).shape =
      .read properties written := by
    rw [Nesting.line, Nesting.shape, outside]
  have solid : trim line.text ≠ [] := by
    intro empty
    have admits := annotatable.admits
    rw [Line.stripped, empty] at admits
    cases admits
  have single : '\n' ∉ line.text := feedless_lines text _ (by rw [whole]; simp)
  obtain ⟨extra, added, comes⟩ :=
    exists_trim_append solid single note.unquoted note.single note.unended
  rw [← trimmed] at comes
  rw [isLine] at here
  refine ⟨front, _, extra, nesting, after, here, there, ?_, ?_, ?_, ?_⟩
  · rw [← isLine]
    rfl
  · rw [← isLine]
    rfl
  · have shape := read line.text
    rw [isLine] at shape
    rw [read, shape]
    exact Shape.read_annotated added annotatable.plain annotatable.admits comes
  · have code := added.splitComment_append annotatable.plain annotatable.admits
    rw [splitComment_of_plain annotatable.plain]
    exact (congrArg (fun code => (splitComment code).1) comes).trans code

/-- A comment behind a line changes neither what the lines of the text are nor what is wrong
with them, unless the line holds a whole segment. -/
theorem Lexed.frame_annotate_iff (annotatable : (ofText properties text).Annotatable number line)
    (note : comment.IsNote) :
    ((ofText properties (text.annotate number comment)).lines.map Line.frame =
        (ofText properties text).lines.map Line.frame ∧
      (ofText properties (text.annotate number comment)).anomalies =
        (ofText properties text).anomalies) ↔
      ∀ key value, line.shape ≠ .segmentInline key value := by
  obtain ⟨front, other, extra, nesting, after, here, there, sameNumber, depth, shape, code⟩ :=
    exists_annotated annotatable note
  constructor
  · rintro ⟨frames, -⟩
    rw [here, there, List.map_append, List.map_append, List.append_cancel_left_eq, List.map_cons,
      List.map_cons] at frames
    have word := congrArg Prod.fst (List.cons.inj frames).1
    simp only [Line.frame, shape] at word
    exact (Shape.word_annotated_iff extra line.shape).mp word
  · intro noInline
    have state := nesting.advance_annotated sameNumber shape noInline
    have anomaly := Line.anomaly?_annotated sameNumber shape depth code
    have frame : other.frame = line.frame := by
      rw [Line.frame, Line.frame, depth, shape,
        (Shape.word_annotated_iff extra line.shape).mpr noInline, Shape.key?_annotated,
        Shape.name?_annotated]
    have anomalies (lexed : Text) : (ofText properties lexed).anomalies =
        (ofText properties lexed).lines.filterMap Line.anomaly? ++
          ((ofText properties lexed).lines.foldl Nesting.advance {}).leftovers := rfl
    rw [state] at there
    constructor
    · rw [here, there]
      simp only [List.map_append, List.map_cons, frame]
    · have open_ : (front.foldl Nesting.advance {}).advance other =
          (front.foldl Nesting.advance {}).advance line :=
        Nesting.advance_annotated sameNumber shape noInline _
      rw [anomalies, anomalies, here, there, List.filterMap_append, List.filterMap_append,
        List.filterMap_cons, List.filterMap_cons, anomaly, List.foldl_append, List.foldl_append,
        List.foldl_cons, List.foldl_cons, open_]

end Lines

/-- A view with a field whose segment stands on one line. -/
def keyedView : Text :=
  "view: v \x7b\n  dimension: id \x7b\n    sql: id ;;\n  \x7d\n\x7d".toList

theorem Lexed.frame_annotate_iff_keyedView :
    (ofText ({} : FormatSettings).segmentProperties keyedView).Annotatable 1
      ⟨1, "  dimension: id \x7b".toList, 1,
        .blockOpen (some "dimension".toList) (some "id".toList)⟩ ∧
    IsNote "key".toList ∧
    (((ofText ({} : FormatSettings).segmentProperties (keyedView.annotate 1 "key".toList)).lines.map
      Line.frame =
        (ofText ({} : FormatSettings).segmentProperties keyedView).lines.map Line.frame ∧
      (ofText ({} : FormatSettings).segmentProperties
      (keyedView.annotate 1 "key".toList)).anomalies =
        (ofText ({} : FormatSettings).segmentProperties keyedView).anomalies) ↔
      ∀ key value, Shape.blockOpen (some "dimension".toList) (some "id".toList) ≠ .segmentInline key
      value) := by
  have annotatable : (ofText ({} : FormatSettings).segmentProperties keyedView).Annotatable 1
      ⟨1, "  dimension: id \x7b".toList, 1,
        .blockOpen (some "dimension".toList) (some "id".toList)⟩ := by
    constructor <;> decide +kernel
  have note : IsNote "key".toList := by constructor <;> decide
  exact ⟨annotatable, note, frame_annotate_iff annotatable note⟩

/-- With a comment behind it, a segment on one line is left open, and so is all around it. -/
theorem Lexed.anomalies_annotate_keyedView :
    (ofText ({} : FormatSettings).segmentProperties keyedView).Annotatable 2
      ⟨2, "    sql: id ;;".toList, 2, .segmentInline "sql".toList "id ;;".toList⟩ ∧
    IsNote "key".toList ∧
    (ofText ({} : FormatSettings).segmentProperties keyedView).anomalies = [] ∧
    (ofText ({} : FormatSettings).segmentProperties (keyedView.annotate 2 "key".toList)).anomalies =
      [⟨2, .unterminatedSegment "sql".toList⟩, ⟨1, .unterminatedBlock "dimension: id".toList⟩,
        ⟨0, .unterminatedBlock "view: v".toList⟩] := by
  refine ⟨⟨?_, ?_, ?_, ?_⟩, ⟨?_, ?_, ?_⟩, ?_, ?_⟩ <;> decide +kernel

end LookML
