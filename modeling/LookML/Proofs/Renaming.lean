import LookML.Proofs.MissingKey
import LookML.Proofs.SegmentEdits

/-!
# Renaming a primary key

A primary key with another name than `pk` is offered a new header.  The search for the old one
finds the header that the field was read from, and the new one is read in its place, whatever
blanks and comment stand around it.  So every line is what it was, and the document differs in
the name of that field, and in the anomaly that names it if it is never closed.
-/

namespace LookML

open Text Code List

section Headers

variable {properties : List Text} {text key name : Text}

/-- Behind a header stands a comment or nothing, and so it does behind another one. -/
theorem Code.exists_behind (trimmed : Trimmed text)
    (header : IsHeader (splitComment text).1 key name []) :
    ∃ rest, text = (splitComment text).1 ++ rest ∧ ∀ again named, IsHeader again key named [] →
      Trimmed (again ++ rest) ∧ (splitComment (again ++ rest)).1 = again := by
  have splits := splits_splitComment text
  rcases splitComment_cases text with
    whole | ⟨code, comment, gap, whole, isComment, occupied, blank, same, -⟩
  · refine ⟨[], by simp [whole], fun again named spaced => ?_⟩
    have respaced := respaced_open header spaced
    have split := (splits.congr respaced.cut respaced.admits).splitComment_eq
    rw [whole, Layout.withComment] at split
    rw [append_nil, split]
    exact ⟨respaced.trimmed, rfl⟩
  · rw [whole] at splits header ⊢
    refine ⟨gap ++ comment, same, fun again named spaced => ?_⟩
    have respaced := respaced_open header spaced
    rw [(splits.congr respaced.cut respaced.admits).splitComment_append occupied blank]
    refine ⟨⟨?_, fun c last => trimmed.last c ?_⟩, rfl⟩
    · obtain ⟨d, more, rfl⟩ := exists_cons_of_ne_nil respaced.filled
      exact respaced.trimmed.head
    · have filled : gap ++ comment ≠ [] := append_ne_nil_of_left_ne_nil occupied _
      rw [getLast?_append_of_ne_nil _ filled] at last
      rwa [same, getLast?_append_of_ne_nil _ filled]

/-- A header can be exchanged on its line for another one of its type. -/
theorem Shape.Reading.exists_header (unbroken : '\n' ∉ text)
    (reading : Shape.Reading properties text (.blockOpen (some key) (some name))) :
    ∃ lead header tail, text = lead ++ (header ++ tail) ∧ allBlank lead = true ∧
      IsHeader header key name [] ∧ ∀ again named, IsHeader again key named [] →
        Shape.Reading properties (lead ++ (again ++ tail))
          (.blockOpen (some key) (some named)) := by
  cases reading with
  | blockOpen isCode stays free brace opened =>
    have header : IsHeader (splitComment (trim text)).1 key name [] := by
      rw [ofBlockOpener] at opened
      split at opened
      next found =>
        cases opened
        exact blockOpen?_eq_some_iff.mp found
      next => cases (blockOpen.inj opened).2
    obtain ⟨lead, trail, blankLead, blankTrail, whole⟩ := exists_trim text
    obtain ⟨rest, behind, exchanged⟩ := exists_behind (trimmed_trim text) header
    refine ⟨lead, _, rest ++ trail, ?_, blankLead, header, fun again named spaced => ?_⟩
    · rw [← append_assoc _ rest, ← behind, ← append_assoc]
      exact whole
    obtain ⟨trimmed, split⟩ := exchanged again named spaced
    have stripped : trim (lead ++ (again ++ (rest ++ trail))) = again ++ rest := by
      simpa using trimmed.trim_append blankLead blankTrail
    have braced : ['{'].isSuffixOf again = true := by
      obtain ⟨front, same, -⟩ := spaced.exists_lead
      exact isSuffixOf_iff_suffix.mpr ⟨front, same.symm⟩
    constructor
    · obtain ⟨c, head, other, -⟩ := spaced.head
      rw [stripped]
      exact ⟨c, mem_head?_append_of_mem_head? head, other⟩
    · rw [stripped, split]
      exact isBlockClose_of_brace braced
    · intro found value isFound
      rw [stripped] at isFound
      cases (propertyKey?_of_property isFound).symm.trans (spaced.append rest).propertyKey?
      have known := (header.append rest).propertyKey?
      rw [← behind] at known
      obtain ⟨source, isSource⟩ :=
        exists_property (fun member => unbroken (mem_of_mem_trim member)) known
      exact free key source isSource
    · rwa [stripped, split]
    · rw [stripped, split, ofBlockOpener, blockOpen?_eq_some_iff.mpr spaced]

end Headers

section Lines

/-- Whether a line of a number is the header of a field. -/
def Line.opensFieldAt (number : Nat) (line : Line) : Bool :=
  line.number = number && line.depth = 1 && OpenDeclaration.opensField line

theorem Line.exists_of_opensFieldAt {number : Nat} {line : Line}
    (opens : line.opensFieldAt number = true) :
    ∃ key name, line.shape = .blockOpen (some key) (some name) ∧ name ≠ [] := by
  rw [opensFieldAt, Bool.and_eq_true] at opens
  obtain ⟨key, name, shape, -, named⟩ := opensField_iff.mp opens.2
  exact ⟨key, name, shape, named⟩

/-- The lines of a text in which the field on the line of a number gets the name `pk`. -/
def Line.retitle (number : Nat) (written : Text) (line : Line) : Line :=
  { line with
    text := if line.opensFieldAt number then written else line.text
    shape := if line.opensFieldAt number then .blockOpen line.shape.key? (some "pk".toList)
      else line.shape }

theorem Shape.SameRole.word {shape other : Shape} (same : shape.SameRole other) :
    other.word = shape.word := by
  rcases same with same | _
  · cases same <;> rfl
  · rfl

variable (number : Nat) (written : Text)

theorem Line.retitles_retitle : Line.Retitles (retitle number written) where
  depth := fun _ => rfl
  role := fun line => by
    rw [retitle]
    dsimp only
    split
    next opens =>
      obtain ⟨key, name, shape, named⟩ := exists_of_opensFieldAt opens
      rw [shape]
      exact .named key named (by decide)
    next => exact .frame (.refl line.shape)
  top := fun line outside => by simp [retitle, opensFieldAt, outside]
  marker := fun line comment => by
    simp [retitle, opensFieldAt, OpenDeclaration.opensField, comment]
  order := fun _ _ => Iff.rfl

end Lines

section Documents

variable {properties : List Text} {text written : Text} {opening : Line}

/-- An open block, under the name `pk` if it is the dimension on the line of a number. -/
def OpenBlock.retitle (number : Nat) (block : OpenBlock) : OpenBlock :=
  if block.line = number then ⟨number, some "dimension".toList, some "pk".toList⟩ else block

/-- An anomaly, with the label of the dimension on the line of a number under the name `pk`. -/
def Anomaly.retitle (number : Nat) (anomaly : Anomaly) : Anomaly :=
  match anomaly.kind with
  | .unterminatedBlock _ =>
    if anomaly.line = number then
      ⟨number, .unterminatedBlock
        (OpenBlock.label ⟨number, some "dimension".toList, some "pk".toList⟩)⟩
    else anomaly
  | _ => anomaly

theorem Nesting.leftovers_retitle (number : Nat) (nesting : Nesting) :
    ({ nesting with blocks := nesting.blocks.map (OpenBlock.retitle number) } : Nesting).leftovers =
      nesting.leftovers.map (Anomaly.retitle number) := by
  rw [leftovers, leftovers, map_append, map_map, map_map, map_map]
  refine congrArg (_ ++ ·) (map_congr_left fun block _ => ?_)
  rw [Function.comp, Function.comp, OpenBlock.retitle, Anomaly.retitle]
  split <;> rfl

theorem Line.anomaly?_retitle (number : Nat) (line : Line) :
    (line.retitle number written).anomaly? = line.anomaly?.map (Anomaly.retitle number) := by
  cases isOpening : line.opensFieldAt number with
  | true =>
    obtain ⟨key, name, shape, -⟩ := exists_of_opensFieldAt isOpening
    rw [anomaly?, anomaly?, retitle, isOpening, shape]
    rfl
  | false =>
    simp only [anomaly?, retitle, isOpening, stripped,
      Bool.false_eq_true, if_false]
    split
    · split <;> rfl
    · rfl
    · rfl

variable (member : opening ∈ (Lexed.ofText properties text).lines)
include member

theorem Lexed.eq_of_number {line : Line} (inLines : line ∈ (ofText properties text).lines)
    (same : line.number = opening.number) : line = opening := by
  have found := getElem?_number inLines
  rw [same, getElem?_number member] at found
  exact (Option.some.inj found).symm

variable (opens : opening.opensFieldAt opening.number = true)
include opens

theorem Lexed.opensFieldAt_eq {line : Line} (inLines : line ∈ (ofText properties text).lines) :
    line.opensFieldAt opening.number = decide (line.number = opening.number) := by
  by_cases same : line.number = opening.number
  · rw [eq_of_number member inLines same, opens, decide_eq_true rfl]
  · simp [Line.opensFieldAt, same]

theorem Lexed.foldl_retitle (dimension : opening.shape.key? = some "dimension".toList) :
    ((ofText properties text).lines.map (Line.retitle opening.number written)).foldl
        Nesting.advance {} =
      { (ofText properties text).lines.foldl Nesting.advance {} with
        blocks := ((ofText properties text).lines.foldl Nesting.advance {}).blocks.map
          (OpenBlock.retitle opening.number) } := by
  rw [foldl_map]
  refine foldl_rel (r := fun again (nesting : Nesting) => again =
    { nesting with blocks := nesting.blocks.map (OpenBlock.retitle opening.number) }) ?_ ?_
  · rfl
  rintro line inLines _ nesting rfl
  have isOpening := opensFieldAt_eq member opens inLines
  by_cases same : line.number = opening.number
  · obtain rfl := eq_of_number member inLines same
    obtain ⟨key, name, shape, -⟩ := Line.exists_of_opensFieldAt opens
    have retitled : (line.retitle line.number written).shape =
        .blockOpen (some "dimension".toList) (some "pk".toList) := by
      rw [Line.retitle, opens, dimension]
      rfl
    have here : OpenBlock.retitle line.number ⟨line.number, some key, some name⟩ =
        ⟨line.number, some "dimension".toList, some "pk".toList⟩ := if_pos rfl
    rw [Nesting.advance, Nesting.advance, retitled, shape]
    exact congrArg (fun block => (⟨block :: _, nesting.segment⟩ : Nesting)) here.symm
  · have shape : (line.retitle opening.number written).shape = line.shape := by
      rw [Line.retitle, isOpening, decide_eq_false same]
      rfl
    have other (key name : Option Text) :
        OpenBlock.retitle opening.number ⟨line.number, key, name⟩ = ⟨line.number, key, name⟩ :=
      if_neg same
    rw [Nesting.advance, Nesting.advance, shape]
    cases line.shape with
    | blockOpen key name =>
      exact congrArg (fun block => (⟨block :: _, nesting.segment⟩ : Nesting)) (other key name).symm
    | blockClose =>
      exact congrArg (fun blocks => (⟨blocks, nesting.segment⟩ : Nesting)) map_tail.symm
    | _ => rfl

variable {again : Text} (edited : again.lines = text.lines.set opening.number written)
  (exchanged : Shape.Reading properties written
    (.blockOpen opening.shape.key? (some "pk".toList)))
include edited exchanged

/-- With another header of a field every line is read as it was. -/
theorem Lexed.lines_retitle : (ofText properties again).lines =
    (ofText properties text).lines.map (Line.retitle opening.number written) := by
  have texts := (text_ofText properties text).symm
  refine (Line.retitles_retitle _ written).lines_ofText (fun _ => rfl) ?_ ?_
  · have inside : opening.number < text.lines.length := by
      have bound := (List.getElem?_eq_some_iff.mp (getElem?_number member)).1
      rwa [texts, length_map]
    rw [edited]
    refine ext_getElem? fun place => ?_
    rw [getElem?_map, getElem?_set, if_pos inside, texts, getElem?_map]
    cases found : (ofText properties text).lines[place]? with
    | none =>
      have other : opening.number ≠ place := by
        rintro rfl
        rw [getElem?_number member] at found
        cases found
      rw [if_neg other]
      rfl
    | some line =>
      obtain rfl := number_of_getElem? found
      have isOpening := opensFieldAt_eq member opens (mem_of_getElem? found)
      by_cases same : line.number = opening.number
      · simp [Line.retitle, isOpening, same]
      · simp [Line.retitle, isOpening, same, Ne.symm same]
  · intro line inLines level read
    refine ⟨read.depth, ?_⟩
    rw [Line.retitle, opensFieldAt_eq member opens inLines]
    by_cases same : line.number = opening.number
    · obtain rfl := eq_of_number member inLines same
      obtain ⟨key, name, shape, -⟩ := Line.exists_of_opensFieldAt opens
      have outside := read.eq_outside (by simp [shape]) (by simp [shape])
      simp only [decide_true, if_true, outside]
      exact exchanged.read_eq.symm
    · simpa [same] using read.shape

/-- With another header of a dimension its name is all that changes, and how an anomaly names it. -/
theorem Document.ofText_retitle (dimension : opening.shape.key? = some "dimension".toList) :
    ofText properties again =
    { ofText properties text with
      items := (ofText properties text).items.map
        (Item.map (Line.retitle opening.number written))
      anomalies := (ofText properties text).anomalies.map (Anomaly.retitle opening.number) } := by
  have retitles := Line.retitles_retitle opening.number written
  have lines := Lexed.lines_retitle member opens edited exchanged
  have anomalies : (Lexed.ofText properties again).anomalies =
      (Lexed.ofText properties text).anomalies.map (Anomaly.retitle opening.number) := by
    have alone := @Line.anomaly?_retitle written opening.number
    refine (congrArg (fun lines => lines.filterMap Line.anomaly? ++
      (lines.foldl Nesting.advance {}).leftovers) lines).trans ?_
    rw [Lexed.foldl_retitle member opens dimension, Nesting.leftovers_retitle, filterMap_map,
      funext alone (f := Line.anomaly? ∘ _), ← map_filterMap, ← map_append]
    rfl
  have values := retitles.topLevelValues (Lexed.ofText properties text).lines
  rw [ofText, ofLexed, lines, anomalies, Outline.finish_foldl_map retitles, values,
    values, length_map]
  rfl

end Documents

/-- The header of a field is a line of the text. -/
theorem Document.header_of_field {properties : List Text} {text : Text}
    {declaration : Declaration} {field : Field}
    (member : declaration ∈ (ofText properties text).declarations)
    (isField : field ∈ declaration.fields) (known : field.kind ≠ .other) :
    field.opening ∈ (Lexed.ofText properties text).lines ∧
      field.opening.ReadAt properties (.outside 1) ∧
      field.opening.opensFieldAt field.startLine = true ∧
      field.opening.shape = .blockOpen (some field.kind.word.toList) (some field.name) ∧
      field.name ≠ [] := by
  have run := (Lexed.run_ofText properties text).with_mem fun _ member => member
  obtain ⟨_, parent⟩ := exists_sound (fun _ _ read => read.1) run (mem_items member)
  obtain ⟨final, sound⟩ := parent.field isField
  obtain ⟨key, name, shape, -, named⟩ := opensField_iff.mp sound.opens
  have isKind := eq_word_of_find? known rfl
  have isName : field.name = name := by
    rw [Field.name, shape]
    rfl
  have isKey : field.typeName = key := by
    rw [Field.typeName, shape]
    rfl
  cases sound.run with
  | cons read _ =>
    refine ⟨read.2, read.1, ?_, ?_, isName ▸ named⟩
    · simp [Line.opensFieldAt, Field.startLine, read.1.depth, sound.opens]
    · rw [shape, isName, ← isKind, isKey]

namespace Lint

section Search

variable {key name header lead : Text}

theorem behindBlanks?_append {α : Type} {read : Text → Option α} {result : α} {gap rest : Text}
    (blank : allBlank gap = true) (solid : ∀ c ∈ rest.head?, isBlank c = false)
    (found : read rest = some result) : behindBlanks? read (gap ++ rest) = some result := by
  induction gap with
  | nil =>
    cases rest with
    | nil => exact found
    | cons c rest =>
      rw [nil_append, behindBlanks?, solid c rfl]
      exact found
  | cons c gap ih =>
    rw [allBlank_cons, Bool.and_eq_true] at blank
    rw [cons_append, behindBlanks?, if_pos blank.1, ih blank.2]

theorem afterHeader?_append (opens : IsHeader header key name [])
    (named : name ≠ []) (tail : Text) :
    afterHeader? key name (header ++ tail) = some tail := by
  obtain ⟨first, second, third, blankFirst, blankSecond, blankThird, rfl⟩ := opens.spaced
  have solid : ∀ c ∈ (name ++ (third ++ '{' :: tail)).head?, isBlank c = false := by
    obtain ⟨d, more, rfl⟩ := exists_cons_of_ne_nil named
    exact solid_head rfl (isBlank_of_isNameChar (opens.named d mem_cons_self))
  have after (lead rest : Text) : after? lead (lead ++ rest) = some rest :=
    after?_eq_some_iff.mpr rfl
  have mark (c : Char) (rest : Text) : after? [c] (c :: rest) = some rest := after [c] rest
  simp only [append_assoc, cons_append, nil_append]
  rw [afterHeader?, after, Option.bind_eq_bind, Option.bind_some, trimLeft_gap blankFirst rfl, mark,
    Option.bind_some]
  refine behindBlanks?_append blankSecond solid ?_
  rw [after, Option.bind_some, trimLeft_gap blankThird rfl, mark]

/-- The search for a header finds it behind the blanks that its line begins with. -/
theorem headerIn?_append (whole : Bool) (blank : allBlank lead = true)
    (opens : IsHeader header key name []) (named : name ≠ []) (tail : Text) :
    headerIn? whole key name (lead ++ (header ++ tail)) = some (lead.length, header.length) := by
  rw [headerIn?, search]
  -- Blanks continue no word.
  have apart : (none : Option Char).any isWord = false := rfl
  generalize (none : Option Char) = before at apart ⊢
  induction lead generalizing before with
  | nil =>
    obtain ⟨c, head, -⟩ := opens.head
    obtain ⟨more, rfl⟩ := head?_eq_some_iff.mp head
    have found := afterHeader?_append opens named tail
    rw [cons_append] at found
    have length : (c :: (more ++ tail)).length - tail.length = (c :: more).length := by
      rw [← cons_append, length_append, Nat.add_sub_cancel]
    rw [nil_append, cons_append, searchFrom, found, apart, Bool.and_false]
    exact congrArg (fun length => some (0, length)) length
  | cons c lead ih =>
    rw [allBlank_cons, Bool.and_eq_true] at blank
    have solid := isWord_of_isBlank blank.1
    have passes (rest : Text) : after? key (c :: rest) = none := by
      refine after?_eq_none_iff.mpr fun more same => ?_
      obtain ⟨d, head, -⟩ := opens.identifier.start
      obtain ⟨word, rfl⟩ := head?_eq_some_iff.mp head
      cases same
      exact absurd (opens.identifier.word c mem_cons_self) (by simp [solid])
    rw [cons_append, searchFrom, afterHeader?, passes, apart, Bool.and_false,
      ih blank.2 (some c) solid]
    rfl

end Search

section Results

variable {settings : Settings} {text unit : Text} {violation : Violation}

/-- A violation of the rule on primary keys that is not about a missing one is a dimension. -/
theorem exists_dimension_of_mem_violations
    (structural : settings.lint.useFallbackReader = false)
    (reported : violation ∈ (lintText settings text).violations)
    (rule : violation.rule = "K1".toList) (naming : violation.path.length ≠ 2) :
    ∃ declaration ∈ (Document.ofText settings.format.segmentProperties text).declarations,
      ∃ field ∈ declaration.fields, field.kind = .dimension ∧
        violation.line = some (field.startLine : Int) ∧
        violation.data.get? "field".toList = some field.name := by
  have apart : "E1".toList ≠ "K1".toList ∧ "F1".toList ≠ "K1".toList := by decide
  obtain ⟨found, breach, rfl⟩ := exists_breach structural reported
  cases breach with
  | missingKey => exact absurd rfl naming
  | misnamedKey known isField =>
    obtain ⟨declaration, isFirst, rfl⟩ := Model.exists_view (mem_of_mem_filter known)
    obtain ⟨field, inFields, kind, rfl⟩ := ViewSpec.exists_field isField
    exact ⟨declaration, mem_of_mem_filter (mem_of_find?_eq_some isFirst), field, inFields, kind,
      rfl, rfl⟩
  | inJoin => exact absurd rule apart.1
  | inField => exact absurd rule apart.2

theorem findLine?_of_getElem? {α : Type} {test : Text → Option α} {number : Nat} {line : Text}
    {lines : List Text} {result : α} (here : lines[number]? = some line)
    (passes : test line = some result) : findLine? test number lines = some (number, result) := by
  obtain ⟨inside, rfl⟩ := List.getElem?_eq_some_iff.mp here
  rw [findLine?, drop_eq_getElem_cons inside, findLine?.go, passes]

/-- A text in which the dimension on a line got the name `pk`, by a new text of that line.  All
other lines are as they were, every line is of its kind and at its depth, and the document differs
in that header and its name, and in the label that an anomaly gives to the dimension. -/
structure Renames (properties : List Text) (number : Nat) (written text again : Text) : Prop where
  texts : again.lines = text.lines.set number written
  lines : (Lexed.ofText properties again).lines =
    (Lexed.ofText properties text).lines.map (Line.retitle number written)
  kinds : (Lexed.ofText properties again).lines.map (fun line => (line.shape.word, line.depth)) =
    (Lexed.ofText properties text).lines.map fun line => (line.shape.word, line.depth)
  document : Document.ofText properties again =
    { Document.ofText properties text with
      items := (Document.ofText properties text).items.map
        (Item.map (Line.retitle number written))
      anomalies := (Document.ofText properties text).anomalies.map (Anomaly.retitle number) }
  field : ∃ declaration ∈ (Document.ofText properties text).declarations,
    ∃ field ∈ declaration.fields, field.startLine = number ∧ field.kind = .dimension ∧
      (field.map (Line.retitle number written)).name = "pk".toList

theorem renames_of_exchanged {properties : List Text} {written again : Text}
    {declaration : Declaration} {field : Field}
    (member : declaration ∈ (Document.ofText properties text).declarations)
    (isField : field ∈ declaration.fields) (kind : field.kind = .dimension)
    (exchanged : Shape.Reading properties written
      (.blockOpen (some "dimension".toList) (some "pk".toList)))
    (edited : again.lines = text.lines.set field.startLine written) :
    Renames properties field.startLine written text again := by
  obtain ⟨inLines, read, opens, shape, -⟩ :=
    Document.header_of_field member isField (by rw [kind]; decide)
  simp only [kind, FieldKind.word] at shape
  have key : field.opening.shape.key? = some "dimension".toList := by
    rw [shape]
    rfl
  rw [← key] at exchanged
  have lines := Lexed.lines_retitle inLines opens edited exchanged
  refine ⟨edited, lines, ?_, Document.ofText_retitle inLines opens edited exchanged key,
    declaration, member, field, isField, rfl, kind, ?_⟩
  · refine (congrArg _ lines).trans (map_map.trans (map_congr_left fun line _ => ?_))
    exact congrArg (·, line.depth) ((Line.retitles_retitle _ written).role line).word
  · rw [Field.name, Field.map, Line.retitle, opens]
    rfl

/-- For a primary key with another name an edit is offered that writes a new header in the place of
the old one, from its first character to its brace, and renames the dimension. -/
theorem renames_renamePrimaryKey (structural : settings.lint.useFallbackReader = false)
    (reported : violation ∈ (lintText settings text).violations)
    (rule : violation.rule = "K1".toList) (naming : violation.path.length ≠ 2) :
    ∃ (number : Nat) (lead header tail : Text), violation.line = some (number : Int) ∧
      text.lines[number]? = some (lead ++ (header ++ tail)) ∧ allBlank lead = true ∧
      (∃ c ∈ header.head?, isBlank c = false) ∧ (∃ front, header = front ++ ['{'] ∧ '{' ∉ front) ∧
      ∃ action ∈ actions violation text unit, ∃ edit : Edit,
        action.title = "Rename dimension to \"pk\"".toList ∧ action.edits = [edit] ∧
        edit.start = ⟨number, lead.length⟩ ∧ edit.stop = ⟨number, lead.length + header.length⟩ ∧
        (∃ front back, text = front ++ (header ++ back) ∧
          edit.apply text = front ++ ("dimension: pk \x7b".toList ++ back)) ∧
        Renames settings.format.segmentProperties number
          (lead ++ ("dimension: pk \x7b".toList ++ tail)) text (edit.apply text) := by
  obtain ⟨declaration, member, field, isField, kind, line, data⟩ :=
    exists_dimension_of_mem_violations structural reported rule naming
  obtain ⟨inLines, read, opens, shape, named⟩ :=
    Document.header_of_field member isField (by rw [kind]; decide)
  simp only [kind, FieldKind.word] at shape
  have here : text.lines[field.startLine]? = some field.opening.text :=
    Lexed.getElem?_text (Lexed.getElem?_number inLines)
  have unbroken := feedless_lines text _ (mem_of_getElem? here)
  have reading := read.reading
  rw [shape] at reading
  obtain ⟨lead, header, tail, whole, blank, isHeader, exchange⟩ := reading.exists_header unbroken
  rw [whole] at here
  -- The new header is one of the same type, so it can be written in the place of the old one.
  have exchanged := exchange "dimension: pk \x7b".toList "pk".toList
    (blockOpen?_eq_some_iff.mp (by decide +kernel))
  obtain ⟨upper, lower, split, count⟩ := exists_of_getElem? here
  obtain ⟨front, back, around, applied, lines⟩ := Edit.exists_exchange split
    (show '\n' ∉ "dimension: pk \x7b".toList by decide) ⟨'{', by decide, by decide⟩
  have renames := @renames_of_exchanged text _ _ (front ++ ("dimension: pk \x7b".toList ++ back))
    _ _ member isField kind exchanged (by rw [lines, split, ← count]; simp)
  rw [← applied, count] at renames
  have start : violation.searchStart = field.startLine := by
    rw [Violation.searchStart, line]
    rfl
  have found := findLine?_of_getElem? here (headerIn?_append false blank isHeader named tail)
  have mends : mend? violation text unit = some
      { title := "Rename dimension to \"pk\"".toList
        rule := violation.rule
        edits := [⟨⟨field.startLine, lead.length⟩, ⟨field.startLine, lead.length + header.length⟩,
          "dimension: pk \x7b".toList⟩] } := by
    rw [mend?, rule, if_pos (by decide +kernel), if_neg naming, renamePrimaryKey?, data, start]
    simp only [Option.some_or, Option.bind_eq_bind, Option.bind_some, found, rule]
  obtain ⟨c, head, -, -, solid⟩ := isHeader.head
  obtain ⟨inner, ends, -, braceless⟩ := isHeader.exists_lead
  exact ⟨field.startLine, lead, header, tail, line, here, blank, ⟨c, head, solid⟩,
    ⟨inner, ends, braceless⟩, _, mem_append_left _ (Option.mem_toList.mpr mends), _, rfl, rfl,
    rfl, rfl, ⟨front, back, around, count ▸ applied⟩, renames⟩

/-- A view whose primary key has another name, odd blanks, a comment, and no closing brace. -/
def unclosedKey : Text :=
  "view: v \x7b\n  sql_table_name: t ;;\n".toList ++
    "  dimension :id\x7b # the key\n    primary_key: yes\n".toList

theorem renames_renamePrimaryKey_unclosedKey :
    ∃ violation ∈ (lintText {} unclosedKey).violations, ∃ number : Nat, ∃ written edit,
      violation.line = some (number : Int) ∧
      (∃ action ∈ actions violation unclosedKey [], action.edits = [edit]) ∧
      Renames ({} : Settings).format.segmentProperties number written unclosedKey
        (edit.apply unclosedKey) := by
  obtain ⟨violation, reported, rule, naming⟩ :
      ∃ violation ∈ (lintText {} unclosedKey).violations, violation.rule = "K1".toList ∧
        violation.path.length ≠ 2 := by
    decide +kernel
  obtain ⟨number, lead, header, tail, line, -, -, -, -, action, offered, edit, -, edits, -, -, -,
      renames⟩ :=
    @renames_renamePrimaryKey {} unclosedKey [] violation rfl reported rule naming
  exact ⟨violation, reported, number, _, edit, line, ⟨action, offered, edits⟩, renames⟩

end Results

end Lint

end LookML
