import LookML.Proofs.Grouping
import LookML.Proofs.Headers
import LookML.Proofs.Occurrences
import LookML.Proofs.Restyling
import LookML.Text.Lines

/-!
# Line breaks

Lines without line breaks can be written one after another and read back.  The layout of
a line adds no line break to it.
-/

namespace LookML

open Text Code List Sql.Style

variable {c : Char} {text : Text}

namespace Text

/-- A text without line feeds and carriage returns. -/
def Unbroken (text : Text) : Prop :=
  ∀ c ∈ text, c ≠ '\n' ∧ c ≠ '\r'

instance (text : Text) : Decidable (Unbroken text) :=
  inferInstanceAs (Decidable (∀ c ∈ text, c ≠ '\n' ∧ c ≠ '\r'))

theorem unbroken_nil : Unbroken [] := by
  simp [Unbroken]

theorem unbroken_cons : Unbroken (c :: text) ↔ (c ≠ '\n' ∧ c ≠ '\r') ∧ Unbroken text :=
  forall_mem_cons

theorem unbroken_append {first second : Text} :
    Unbroken (first ++ second) ↔ Unbroken first ∧ Unbroken second :=
  forall_mem_append

namespace Unbroken

variable {other : Text}

theorem of_subset (unbroken : Unbroken text) (inside : ∀ c ∈ other, c = ' ' ∨ c ∈ text) :
    Unbroken other := by
  intro c member
  rcases inside c member with rfl | source
  · decide
  · exact unbroken c source

theorem not_mem (unbroken : Unbroken text) : '\n' ∉ text :=
  fun member => (unbroken _ member).1 rfl

theorem trimLeft (unbroken : Unbroken text) : Unbroken (trimLeft text) :=
  fun c member => unbroken c ((dropWhile_sublist _).mem member)

theorem trimRight (unbroken : Unbroken text) : Unbroken (trimRight text) := by
  obtain ⟨tail, -, whole⟩ := exists_trimRight text
  rw [whole] at unbroken
  exact (unbroken_append.mp unbroken).1

theorem trim (unbroken : Unbroken text) : Unbroken (trim text) :=
  unbroken.trimLeft.trimRight

end Unbroken

theorem splitBreaks_cons (plain : c ≠ '\r') (text : Text) :
    splitBreaks (c :: text) =
      if c = '\n' then [] :: splitBreaks text
      else
        match splitBreaks text with
        | [] => [[c]]
        | line :: lines => (c :: line) :: lines :=
  splitBreaks.eq_3 c text fun _ same => absurd same plain

theorem splitBreaks_ne_nil (text : Text) : splitBreaks text ≠ [] := by
  fun_cases splitBreaks text <;> simp

theorem lines_of_ne_nil (occupied : text ≠ []) : text.lines = splitBreaks text := by
  rw [lines, if_neg (by simpa using occupied)]

theorem lines_of_splitBreaks {lines : List Text} (whole : splitBreaks text = lines)
    (solid : lines ≠ [[]]) : text.lines = lines := by
  rw [lines_of_ne_nil, whole]
  rintro rfl
  exact solid whole.symm

theorem splitBreaks_of_lines {above below : List Text} {line : Text}
    (whole : text.lines = above ++ line :: below) : splitBreaks text = above ++ line :: below := by
  rw [← whole, lines_of_ne_nil]
  rintro rfl
  simp [lines] at whole

theorem splitBreaks_feed (text : Text) : splitBreaks ('\n' :: text) = [] :: splitBreaks text := by
  rw [splitBreaks_cons (by decide), if_pos rfl]

/-- A character that ends no line is the first one of its line. -/
theorem splitBreaks_cons_of_inner {line : Text} {lines : List Text} (inner : c ≠ '\n')
    (apart : c = '\r' → text.head? ≠ some '\n') (rest : splitBreaks text = line :: lines) :
    splitBreaks (c :: text) = (c :: line) :: lines := by
  rw [splitBreaks.eq_3 c text, if_neg inner, rest]
  rintro next rfl rfl
  exact apart rfl rfl

/-- A line without the carriage return that ends it. -/
def dropReturn (line : Text) : Text :=
  if line.getLast? = some '\r' then line.dropLast else line

theorem dropReturn_of_last {line : Text} (other : line.getLast? ≠ some '\r') :
    dropReturn line = line :=
  if_neg other

@[simp] theorem dropReturn_concat (line : Text) : dropReturn (line ++ ['\r']) = line := by
  simp [dropReturn]

theorem dropReturn_cases (line : Text) :
    (line.getLast? ≠ some '\r' ∧ dropReturn line = line) ∨ line = dropReturn line ++ ['\r'] := by
  by_cases ends : line.getLast? = some '\r'
  · obtain ⟨front, rfl⟩ := getLast?_eq_some_iff.mp ends
    exact .inr (by rw [dropReturn_concat])
  · exact .inl ⟨ends, dropReturn_of_last ends⟩

theorem trim_dropReturn (line : Text) : Text.trim (dropReturn line) = Text.trim line := by
  rcases dropReturn_cases line with ⟨-, same⟩ | ends
  · rw [same]
  · conv_rhs => rw [ends]
    rw [← trim_trimRight (_ ++ _), trimRight_append_of_allBlank (by decide), trim_trimRight]

theorem dropReturn_cons {line : Text} (inner : ¬(c = '\r' ∧ line = [])) :
    dropReturn (c :: line) = c :: dropReturn line := by
  cases line with
  | nil =>
    have other : c ≠ '\r' := fun same => inner ⟨same, rfl⟩
    simp [dropReturn, other]
  | cons d line =>
    rw [dropReturn, dropReturn, getLast?_cons_cons, dropLast_cons_cons]
    split <;> rfl

/-- A line before a line feed: a carriage return at its end is part of the break. -/
theorem splitBreaks_break {line : Text} (single : '\n' ∉ line) (rest : Text) :
    splitBreaks (line ++ '\n' :: rest) = dropReturn line :: splitBreaks rest := by
  induction line with
  | nil => exact splitBreaks_feed rest
  | cons c line ih =>
    simp only [mem_cons, not_or] at single
    by_cases joins : c = '\r' ∧ line = []
    · obtain ⟨rfl, rfl⟩ := joins
      rfl
    · rw [dropReturn_cons joins]
      refine splitBreaks_cons_of_inner (Ne.symm single.1) (fun return_ head => ?_) (ih single.2)
      cases line with
      | nil => exact joins ⟨return_, rfl⟩
      | cons d line =>
        cases head
        exact single.2 mem_cons_self

theorem splitBreaks_of_feedless {line : Text} (single : '\n' ∉ line) :
    splitBreaks line = [line] := by
  induction line with
  | nil => rfl
  | cons c line ih =>
    simp only [mem_cons, not_or] at single
    refine splitBreaks_cons_of_inner (Ne.symm single.1) (fun _ head => ?_) (ih single.2)
    exact single.2 (mem_of_mem_head? head)

/-- The first line of a text, alone or before a line feed. -/
theorem exists_first_break {line : Text} {below : List Text}
    (whole : text.splitBreaks = line :: below) :
    ('\n' ∉ text ∧ text = line ∧ below = []) ∨
      ∃ full rest, text = full ++ '\n' :: rest ∧ '\n' ∉ full ∧ dropReturn full = line ∧
        splitBreaks rest = below := by
  by_cases feeds : '\n' ∈ text
  · obtain ⟨full, rest, rfl, single⟩ := eq_append_cons_of_mem feeds
    rw [splitBreaks_break single] at whole
    obtain ⟨here, later⟩ := cons.inj whole
    exact .inr ⟨full, rest, rfl, single, here, later⟩
  · rw [splitBreaks_of_feedless feeds] at whole
    obtain ⟨rfl, rfl⟩ := cons.inj whole
    exact .inl ⟨feeds, rfl, rfl⟩

/-- Lines, each before a line feed. -/
theorem splitBreaks_flatMap {lines : List Text} (feedless : ∀ line ∈ lines, '\n' ∉ line)
    (rest : Text) : splitBreaks (lines.flatMap (· ++ ['\n']) ++ rest) =
      lines.map dropReturn ++ splitBreaks rest := by
  induction lines with
  | nil => rfl
  | cons line lines ih =>
    obtain ⟨here, later⟩ := forall_mem_cons.mp feedless
    rw [flatMap_cons, append_assoc, append_assoc, singleton_append, splitBreaks_break here,
      ih later]
    rfl

/-- Lines that were joined are read as they were, but for carriage returns at their ends. -/
theorem splitBreaks_joinLines {lines : List Text} {last : Text}
    (feedless : ∀ line ∈ lines ++ [last], '\n' ∉ line) :
    splitBreaks (joinLines (lines ++ [last])) = lines.map dropReturn ++ [last] := by
  obtain ⟨inner, single⟩ := forall_mem_append.mp feedless
  rw [joinLines_append_cons, feedLines_nil, append_nil, splitBreaks_flatMap inner,
    splitBreaks_of_feedless (single last mem_cons_self)]

theorem lines_joinLines {lines : List Text} (unbroken : ∀ line ∈ lines, Unbroken line)
    (solid : lines ≠ [[]]) : (joinLines lines).lines = lines := by
  rcases eq_nil_or_concat lines with rfl | ⟨front, last, rfl⟩
  · rfl
  rw [concat_eq_append] at *
  have kept : front.map dropReturn = front := by
    refine (map_congr_left fun line member => dropReturn_of_last fun ends => ?_).trans (map_id _)
    exact (unbroken line (mem_append_left _ member) _ (mem_of_getLast? ends)).2 rfl
  refine lines_of_splitBreaks ?_ solid
  rw [splitBreaks_joinLines fun line member => (unbroken line member).not_mem, kept]

theorem unbroken_lines (plain : '\r' ∉ text) : ∀ line ∈ text.lines, Unbroken line := by
  have pieces : ∀ line ∈ splitBreaks text, Unbroken line := by
    induction text with
    | nil => exact forall_mem_singleton.mpr unbroken_nil
    | cons c text ih =>
      simp only [mem_cons, not_or] at plain
      have later := ih plain.2
      rw [splitBreaks_cons (Ne.symm plain.1)]
      split
      next => exact forall_mem_cons.mpr ⟨unbroken_nil, later⟩
      next inside =>
        have here : c ≠ '\n' ∧ c ≠ '\r' := ⟨inside, Ne.symm plain.1⟩
        split
        next => exact forall_mem_singleton.mpr (unbroken_cons.mpr ⟨here, unbroken_nil⟩)
        next first rest same =>
          rw [same, forall_mem_cons] at later
          exact forall_mem_cons.mpr ⟨unbroken_cons.mpr ⟨here, later.1⟩, later.2⟩
  rw [lines]
  split
  · simp
  · exact pieces

end Text

namespace Sql

variable {result : Text}

theorem unbroken_of_letters (letters : ∀ c ∈ text, c ∈ caseForms) : Unbroken text := by
  intro c member
  have word := isWord_of_mem_caseForms c (letters c member)
  constructor <;> rintro rfl <;> cases word

theorem Worded.unbroken (worded : Worded text result) (unbroken : Unbroken text) :
    Unbroken result := by
  induction worded with
  | nil => exact unbroken_nil
  | other apart _ ih =>
    obtain ⟨here, rest⟩ := unbroken_cons.mp unbroken
    exact unbroken_cons.mpr ⟨here, ih rest⟩
  | phrase completes _ ih =>
    simp only [unbroken_append] at unbroken
    obtain ⟨first, second⟩ := completes.phrase.letters
    simp only [unbroken_append, unbroken_cons]
    exact ⟨unbroken_of_letters (mem_caseForms_upper first), by decide,
      unbroken_of_letters (mem_caseForms_upper second), ih unbroken.2.2.2⟩
  | keyword _ _ known _ ih =>
    rw [unbroken_append] at unbroken ⊢
    exact ⟨unbroken_of_letters (mem_caseForms_upper known.letters), ih unbroken.2⟩
  | word _ _ _ _ ih =>
    rw [unbroken_append] at unbroken ⊢
    exact ⟨unbroken.1, ih unbroken.2⟩

theorem unbroken_of_spaced {before : Option Char} (spaced : Rewritten spacingAt before text result)
    (unbroken : Unbroken text) : Unbroken result := by
  induction spaced with
  | nil => exact unbroken_nil
  | plain _ _ ih =>
    obtain ⟨here, rest⟩ := unbroken_cons.mp unbroken
    exact unbroken_cons.mpr ⟨here, ih rest⟩
  | found _ present _ ih =>
    rw [unbroken_append] at unbroken ⊢
    refine ⟨?_, ih unbroken.2⟩
    obtain ⟨operator, found, same⟩ := Option.map_eq_some_iff.mp present
    obtain ⟨rfl, -⟩ := Prod.mk.inj same
    have each : ∀ operator ∈ operators, ∀ c ∈ operator, c ≠ '\n' ∧ c ≠ '\r' := by decide
    rw [operatorAt?] at found
    split at found
    next => cases found
    next =>
      have plain : Unbroken operator := each operator (mem_of_find?_eq_some found)
      simp only [unbroken_append, unbroken_cons]
      exact ⟨⟨⟨by decide, unbroken_nil⟩, plain⟩, by decide, unbroken_nil⟩

theorem squeezeSpaces_sublist (text : Text) : Sublist (squeezeSpaces text) text := by
  induction text with
  | nil => exact Sublist.refl []
  | cons c text ih =>
    rw [squeezeSpaces]
    split
    · exact ih.cons c
    · exact ih.cons_cons c

theorem unbroken_spell (unbroken : Unbroken text) : Unbroken (spell text) := by
  have keywords := (worded_spellKeywords text).unbroken unbroken
  have spaced := unbroken_of_spaced (spaced_spaceOperators (spellKeywords text)) keywords
  exact fun c member => spaced c ((squeezeSpaces_sublist _).mem member)

theorem unbroken_spellLine (unbroken : Unbroken text) (pending : Option Text) :
    Unbroken (spellLine pending text).1 := by
  rw [← written_tokenize false pending text] at unbroken
  have tokens : ∀ tokens : List Token, Unbroken (written tokens) →
      Unbroken (tokens.flatMap spellToken) := by
    intro tokens unbroken
    induction tokens with
    | nil => exact unbroken_nil
    | cons token tokens ih =>
      rw [written_cons, unbroken_append] at unbroken
      rw [flatMap_cons, unbroken_append]
      refine ⟨?_, ih unbroken.2⟩
      cases token with
      | text content => exact unbroken_spell unbroken.1
      | atom content => exact unbroken.1
  have spelled := tokens _ unbroken
  have lead : Unbroken (dropLead (tokenize false pending text).1
      ((tokenize false pending text).1.flatMap spellToken)) := by
    unfold dropLead
    split
    · exact spelled.trimLeft
    · exact spelled
  rw [spellLine_eq]
  simp only [spellTokens]
  split
  · exact lead.trimRight
  · exact lead

namespace Style

variable {style : Style}

theorem unbroken_restyle (unbroken : Unbroken text) (pending : Option Text) :
    Unbroken (style.restyle pending text).1 := by
  unfold restyle
  split
  next =>
    dsimp only
    split
    · exact unbroken
    · split
      · exact unbroken.trimLeft.trimRight
      · exact unbroken.trimLeft
  next => exact unbroken_spellLine unbroken pending

theorem unbroken_indent (plain : Unbroken style.unit) (depth : Nat) :
    Unbroken (style.indent depth) := by
  intro c member
  obtain ⟨unit, repeated, inUnit⟩ := mem_flatten.mp member
  rw [eq_of_mem_replicate repeated] at inUnit
  exact plain c inUnit

variable (plain : Unbroken style.unit)
include plain

theorem unbroken_bodyLine (depth : Nat) (pending : Option Text) (unbroken : Unbroken text) :
    Unbroken (style.bodyLine depth pending text).1 := by
  have restyled : Unbroken (style.restyle none (trimLeft text)).1 :=
    unbroken_restyle unbroken.trimLeft none
  unfold bodyLine
  split
  · exact unbroken
  · split
    · exact unbroken_nil
    · split
      · exact unbroken_append.mpr ⟨unbroken_indent plain _, unbroken.trim⟩
      · dsimp only
        split
        · exact unbroken_append.mpr ⟨unbroken_indent plain _, restyled⟩
        · exact unbroken_append.mpr ⟨unbroken_indent plain _, restyled⟩

theorem unbroken_bodyLines (depth : Nat) (pending : Option Text) {texts : List Text}
    (unbroken : ∀ text ∈ texts, Unbroken text) :
    ∀ line ∈ style.bodyLines depth pending texts, Unbroken line := by
  induction texts generalizing pending with
  | nil => simp [bodyLines]
  | cons text texts ih =>
    rw [bodyLines]
    obtain ⟨here, later⟩ := forall_mem_cons.mp unbroken
    exact forall_mem_cons.mpr ⟨unbroken_bodyLine plain depth pending here, ih _ later⟩

theorem unbroken_headLine (segment : Segment) (property : Unbroken segment.property)
    (unbroken : Unbroken text) : Unbroken (style.headLine segment text) := by
  have head : Unbroken (style.indent segment.depth ++ segment.property ++ [':']) := by
    simp only [unbroken_append, unbroken_cons]
    exact ⟨⟨unbroken_indent plain _, property⟩, by decide, unbroken_nil⟩
  unfold headLine
  dsimp only
  split
  · exact head
  · rw [unbroken_append, unbroken_append]
    exact ⟨⟨head, by decide⟩, unbroken⟩

omit plain in
theorem unbroken_closingText? {before : Text} (unbroken : Unbroken text)
    (found : closingText? text = some before) : Unbroken before := by
  unfold closingText? at found
  split at found
  next front tail cut =>
    split at found
    next => cases found
    next =>
      cases found
      rw [(cutLast?_eq_some_iff.mp cut).text_eq] at unbroken
      exact (unbroken_append.mp unbroken).1
  next => cases found

end Style

end Sql

namespace Layout

theorem mem_spaceProperty (member : c ∈ spaceProperty text) : c = ' ' ∨ c ∈ trim text := by
  cases found : property? (trim text) with
  | none =>
    rw [spaceProperty_of_none found] at member
    exact .inr member
  | some parts =>
    obtain ⟨key, value⟩ := parts
    have trimmed := trimmed_of_property found
    obtain ⟨lead, gap, keyed, -, whole, -⟩ := property?_iff.mp found
    obtain ⟨front, -, rfl⟩ := keyed.spaced
    obtain ⟨space, -, occupied, empty, written⟩ := spaceProperty_eq found
    have inSpace : c ∈ space → c = ' ' := by
      by_cases filled : tidyValue value = []
      · rw [empty filled]
        simp
      · rw [occupied filled]
        simp
    by_cases blank : c = ' '
    · exact .inl blank
    · right
      rw [written, mem_append, mem_append, mem_append] at member
      rw [whole]
      simp only [mem_append]
      rcases member with (inKey | colon) | gapped | inValue
      · exact .inl (.inl inKey)
      · exact .inl (.inr (.inr colon))
      · exact absurd (inSpace gapped) blank
      · refine .inr (.inr ?_)
        by_contra absent
        exact not_mem_tidyValue trimmed absent blank inValue

theorem mem_spaceOpenerCode {code : Text} (member : c ∈ spaceOpenerCode code) :
    c = ' ' ∨ c ∈ code := by
  have inHeader {text key name body : Text} (header : IsHeader text key name body)
      (member : c ∈ headerText key name) : c = ' ' ∨ c ∈ text := by
    obtain ⟨first, second, third, -, -, -, rfl⟩ := header.spaced
    unfold headerText at member
    split at member
    all_goals
      simp only [mem_append, mem_cons, not_mem_nil, or_false] at member ⊢
      tauto
  cases opened : blockOpen? code with
  | some block =>
    have header := blockOpen?_eq_some_iff.mp opened
    obtain ⟨lead, same, -⟩ := header.exists_lead
    rw [spaceOpenerCode_of_open opened] at member
    rcases mem_append.mp member with front | brace
    · exact inHeader header front
    · rw [mem_singleton.mp brace, same]
      simp
  | none =>
    cases inlined : inlineBlock? code with
    | some block =>
      obtain ⟨key, name, body⟩ := block
      obtain ⟨lead, trail, tail, -, -, ends, -, -, header⟩ := exists_inline inlined
      obtain ⟨front, same, -⟩ := header.exists_lead
      rw [spaceOpenerCode_of_inline opened inlined] at member
      rcases mem_append.mp member with inFront | behind
      · exact inHeader header inFront
      · rcases mem_append.mp behind with block | ending
        · rw [same]
          unfold blockText at block
          split at block
          all_goals
            simp only [mem_append, mem_cons, not_mem_nil, or_false] at block ⊢
            tauto
        · split at ending
          next ended =>
            rcases mem_cons.mp ending with blank | mark
            · exact .inl blank
            · exact .inr ((isSuffixOf_iff_suffix.mp ended).mem mark)
          next => cases ending
    | none =>
      cases ended : before? ['{'] code with
      | some lead =>
        rw [spaceOpenerCode_of_other opened inlined ended] at member
        have inside := (dropWhile_sublist _).mem member
        obtain ⟨tail, -, whole⟩ := exists_trimRight lead
        rw [before?_eq_some_iff.mp ended, whole]
        simp only [mem_append, mem_cons, not_mem_nil, or_false] at inside ⊢
        tauto
      | none =>
        rw [spaceOpenerCode_of_none opened inlined ended] at member
        exact .inr ((dropWhile_sublist _).mem member)

theorem mem_withComment {code : Text} (inside : c ∈ code → c = ' ' ∨ c ∈ trim text)
    (member : c ∈ withComment code (splitComment (trim text)).2) : c = ' ' ∨ c ∈ trim text := by
  rcases splitComment_cases (trim text) with whole | ⟨_, comment, gap, whole, -, -, -, same, -⟩
  · rw [whole] at member
    exact inside member
  · rw [whole] at member
    simp only [withComment, mem_append, mem_singleton] at member
    rcases member with (inCode | blank) | inComment
    · exact inside inCode
    · exact .inl blank
    · rw [same]
      simp [inComment]

theorem mem_of_mem_code (member : c ∈ (splitComment (trim text)).1) : c ∈ trim text := by
  obtain ⟨rest, whole⟩ := exists_behind_code (trim text)
  rw [whole]
  exact mem_append_left _ member

theorem mem_spaceClose (closes : isBlockClose (splitComment (trim text)).1 = true)
    (member : c ∈ spaceClose text) : c = ' ' ∨ c ∈ trim text := by
  refine mem_withComment ?_ member
  obtain ⟨tail, same, -⟩ := isBlockClose_iff.mp closes
  have brace : '}' ∈ (splitComment (trim text)).1 := by
    rw [same]
    exact mem_cons_self
  intro inside
  split at inside
  next ended =>
    have mark : ∀ d ∈ terminator, d ∈ (splitComment (trim text)).1 :=
      fun d => (isSuffixOf_iff_suffix.mp ended).mem
    simp only [mem_append, mem_cons, not_mem_nil, or_false] at inside
    rcases inside with (rfl | blank) | inMark
    · exact .inr (mem_of_mem_code brace)
    · exact .inl blank
    · exact .inr (mem_of_mem_code (mark c inMark))
  next =>
    rw [mem_singleton.mp inside]
    exact .inr (mem_of_mem_code brace)

end Layout

namespace Shape

variable {properties : List Text} {shape : Shape}

theorem Reading.mem_space (reading : Reading properties text shape)
    (member : c ∈ shape.space text) : c = ' ' ∨ c ∈ trim text := by
  have opener (inside : c ∈ Layout.spaceOpener text) : c = ' ' ∨ c ∈ trim text :=
    Layout.mem_withComment
      (fun inside => (Layout.mem_spaceOpenerCode inside).imp_right Layout.mem_of_mem_code) inside
  cases reading with
  | blank | comment | content => exact .inr member
  | blockOpen | inlineBlock => exact opener member
  | blockClose _ closes => exact Layout.mem_spaceClose closes member
  | property | segmentOpen | segmentInline => exact Layout.mem_spaceProperty member

theorem Reading.unbroken_space (reading : Reading properties text shape)
    (unbroken : Unbroken text) :
    Unbroken (shape.space text) :=
  unbroken.trim.of_subset fun _ => reading.mem_space

end Shape

theorem Code.mem_of_mem_stripTerminator (member : c ∈ stripTerminator text) : c ∈ text := by
  rw [stripTerminator] at member
  apply mem_of_mem_trim
  have inside := mem_of_mem_trim member
  cases ended : before? terminator (trim text) with
  | none => rwa [ended] at inside
  | some content =>
    rw [ended] at inside
    rw [before?_eq_some_iff.mp ended]
    exact mem_append_left _ inside

theorem Code.unbroken_of_property {key value : Text}
    (found : property? (trim text) = some (key, value)) (unbroken : Unbroken text) :
    Unbroken key ∧ Unbroken value := by
  have inside := unbroken.trim
  obtain ⟨lead, gap, keyed, -, whole, -⟩ := property?_iff.mp found
  obtain ⟨front, -, rfl⟩ := keyed.spaced
  rw [whole] at inside
  simp only [unbroken_append] at inside
  exact ⟨inside.1.1, inside.2.2⟩

namespace FormatSettings

variable {settings : FormatSettings}

theorem line_eq (settings : FormatSettings) (line : Line) :
    settings.line line = settings.indent line.indentDepth ++ line.shape.space line.text := by
  unfold FormatSettings.line Line.stripped
  cases line.shape <;> rfl

theorem unbroken_indent (settings : FormatSettings) (depth : Nat) :
    Unbroken (settings.indent depth) := by
  intro c member
  unfold indent at member
  split at member
  all_goals
    rw [eq_of_mem_replicate member]
    decide

theorem unbroken_unit (settings : FormatSettings) (property : Text) :
    Unbroken (settings.style property).unit := by
  have unit : (settings.style property).unit = settings.indent 1 := by
    simp [style, indentUnit, indent]
  rw [unit]
  exact settings.unbroken_indent 1

section Entries

variable {properties : List Text} {depth : Nat} {line : Line}

theorem unbroken_line (read : line.ReadAt properties (.outside depth))
    (unbroken : Unbroken line.text) :
    Unbroken (settings.line line) := by
  rw [line_eq]
  exact unbroken_append.mpr ⟨settings.unbroken_indent _, read.reading.unbroken_space unbroken⟩

theorem unbroken_single (verbatim : Bool) (read : line.ReadAt properties (.outside depth))
    (unbroken : Unbroken line.text) :
    ∀ text ∈ settings.entry verbatim (.single line), Unbroken text := by
  have whole : Unbroken (settings.line line) := unbroken_line read unbroken
  unfold entry
  dsimp only
  split
  · simpa using unbroken_nil
  · simpa using unbroken.trimRight
  · split
    · simpa using unbroken.trimRight
    · simpa using whole
  · simpa using whole

variable {reads : Level → Line → Prop} (known : ∀ level line, reads level line →
  line.ReadAt properties level ∧ Unbroken line.text)
include known

theorem unbroken_opened {property value : Text} {body : List Line} {closing : Option Line}
    (read : reads (.outside depth) line) (shape : line.shape = .segmentOpen property value)
    (bodyRead : ∀ content ∈ body, reads ⟨depth, some property⟩ content)
    (closingRead : ∀ content ∈ closing, reads ⟨depth, some property⟩ content) :
    ∀ text ∈ (settings.style property).segmentLines ⟨property, value, false, line, body, closing⟩,
      Unbroken text := by
  have plain := settings.unbroken_unit property
  obtain ⟨readAt, unbroken⟩ := known _ _ read
  obtain ⟨keyPlain, valuePlain⟩ :=
    unbroken_of_property (readAt.property_of_segment (.inl shape)).1 unbroken
  have head : ∀ segment : Segment, segment.property = property →
      Unbroken ((settings.style property).headLine segment
        ((settings.style property).restyle none value).1) :=
    fun segment same => unbroken_headLine plain segment (same ▸ keyPlain)
      (unbroken_restyle valuePlain none)
  have bodyPlain : ∀ text ∈ body.map Line.text, Unbroken text := by
    intro text member
    obtain ⟨content, inBody, rfl⟩ := mem_map.mp member
    exact (known _ _ (bodyRead content inBody)).2
  cases closing with
  | none =>
    rw [segmentLines_unfinished]
    exact forall_mem_cons.mpr ⟨head _ rfl, unbroken_bodyLines plain _ _ bodyPlain⟩
  | some closing =>
    have closingPlain := (known _ _ (closingRead closing rfl)).2
    rw [segmentLines_closed]
    have last : ∀ text ∈ (closingText? closing.text).toList, Unbroken text :=
      fun text new => unbroken_closingText? closingPlain (Option.mem_toList.mp new)
    have texts := unbroken_bodyLines plain line.depth
      ((settings.style property).restyle none value).2 (forall_mem_append.mpr ⟨bodyPlain, last⟩)
    have terminated := unbroken_append.mpr ⟨Sql.Style.unbroken_indent plain line.depth,
      show Unbroken terminator by decide⟩
    exact forall_mem_cons.mpr ⟨head _ rfl,
      forall_mem_append.mpr ⟨texts, forall_mem_singleton.mpr terminated⟩⟩

theorem unbroken_entries (verbatim : Bool) {lines : List Line}
    {entries : List Entry} {final : Level}
    (grouped : Entries reads depth lines entries final) :
    ∀ text ∈ entries.flatMap (settings.entry verbatim), Unbroken text := by
  induction grouped with
  | nil => simp
  | single read _ _ _ ih =>
    rw [flatMap_cons, forall_mem_append]
    exact ⟨unbroken_single verbatim (known _ _ read).1 (known _ _ read).2, ih⟩
  | @inline depth line property value _ _ _ read shape _ ih =>
    rw [flatMap_cons, forall_mem_append]
    obtain ⟨readAt, unbroken⟩ := known _ _ read
    obtain ⟨keyPlain, valuePlain⟩ :=
      unbroken_of_property (readAt.property_of_segment (.inr shape)).1 unbroken
    refine ⟨?_, ih⟩
    rw [entry, segmentLines_inline, forall_mem_singleton, unbroken_append]
    have plain := settings.unbroken_unit property
    refine ⟨unbroken_headLine plain _ keyPlain (unbroken_restyle ?_ none), by decide⟩
    exact valuePlain.of_subset fun c inside => .inr (mem_of_mem_stripTerminator inside)
  | closed read shape bodyRead closingRead _ _ ih =>
    rw [flatMap_cons, forall_mem_append]
    refine ⟨unbroken_opened known read shape
      (fun content inside => (bodyRead content inside).1) ?_, ih⟩
    rintro content ⟨⟩
    exact closingRead
  | unfinished read shape bodyRead =>
    rw [flatMap_singleton]
    exact unbroken_opened known read shape
      (fun content inside => (bodyRead content inside).1) (by simp)

end Entries

end FormatSettings

end LookML
