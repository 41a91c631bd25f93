import LookML.Proofs.Values

/-!
# Spaced headers and closing braces

A header or a closing brace that was spaced is read as what it was, with the same comment
behind it, and spacing it again changes nothing.  The exception is a block on one line
whose body begins like a comment: once a blank stands before it, it is one.
-/

namespace LookML

open Text Code List Layout

namespace Code

section Splitting

variable {text code again lead gap rest : Text} {comment : Option Text}

theorem cutComment?_of_unmarked (plain : '#' ∉ text) : cutComment? text = none := by
  cases found : cutComment? text with
  | none => rfl
  | some cut =>
    obtain ⟨isComment, gap, -, -, same⟩ := cutComment?_eq_some found
    obtain ⟨more, behind⟩ := head?_eq_some_iff.mp isComment.mark
    rw [same, behind] at plain
    simp at plain

/-- The code and the comment of a text, where the code alone has no comment to split off. -/
def Splits (code : Text) : Option Text → Prop
  | some comment => IsComment comment ∧ admitsComment code = true ∧ cutComment? code = none
  | none => ∀ cut ∈ cutComment? code, admitsComment cut.1 = false

theorem last_of_admitsComment (admits : admitsComment code = true) :
    ∃ c, code.getLast? = some c ∧ isBlank c = false := by
  have last {mark : Text} {c : Char} (final : mark.getLast? = some c)
      (suffix : mark.isSuffixOf code = true) : code.getLast? = some c := by
    obtain ⟨front, rfl⟩ := isSuffixOf_iff_suffix.mp suffix
    rw [getLast?_append, final]
    rfl
  simp only [admitsComment, Bool.or_eq_true] at admits
  rcases admits with (opens | closes) | ends
  · exact ⟨'{', last rfl opens, rfl⟩
  · exact ⟨'}', last rfl closes, rfl⟩
  · exact ⟨';', last rfl ends, rfl⟩

theorem cutComment?_append_comment {comment : Text} (admits : admitsComment code = true)
    (blank : allBlank gap = true) (isComment : IsComment comment) :
    cutComment? (code ++ (gap ++ comment)) =
      match cutComment? code with
      | some (front, behind) => some (front, behind ++ (gap ++ comment))
      | none => (cutComment? (gap ++ comment)).map (prepend code) := by
  obtain ⟨c, last, solid⟩ := last_of_admitsComment admits
  have unquoted : (gap ++ comment).any isQuote = false := by
    rw [any_append, any_isQuote_of_allBlank blank, isComment.unquoted]
    rfl
  exact cutComment?_append_unquoted (solid_last last solid) unquoted

theorem cutComment?_code {comment : Text} (found : cutComment? text = some (code, comment))
    (admits : admitsComment code = true) : cutComment? code = none := by
  obtain ⟨isComment, gap, -, blank, same⟩ := cutComment?_eq_some found
  have cut := cutComment?_append_comment admits blank isComment
  rw [← same, found] at cut
  cases inner : cutComment? code with
  | none => rfl
  | some parts =>
    obtain ⟨front, behind⟩ := parts
    obtain ⟨-, middle, occupied, -, whole⟩ := cutComment?_eq_some inner
    rw [inner] at cut
    obtain ⟨rfl, -⟩ := Prod.mk.inj (Option.some.inj cut)
    have none_ : middle ++ behind = [] := self_eq_append_right.mp whole
    exact absurd (append_eq_nil_iff.mp none_).1 occupied

theorem splits_splitComment (text : Text) : Splits (splitComment text).1 (splitComment text).2 := by
  rw [splitComment]
  split
  next code comment found =>
    split
    next admits => exact ⟨(cutComment?_eq_some found).1, admits, cutComment?_code found admits⟩
    next refuses =>
      intro cut member
      cases found.symm.trans member
      exact Bool.eq_false_iff.mpr refuses
  next absent =>
    intro cut member
    cases absent.symm.trans member

theorem Splits.splitComment_append {comment : Text} (splits : Splits code (some comment))
    (occupied : gap ≠ []) (blank : allBlank gap = true) :
    splitComment (code ++ (gap ++ comment)) = (code, some comment) := by
  obtain ⟨isComment, admits, whole⟩ := splits
  have cut := cutComment?_append_comment admits blank isComment
  rw [whole, cutComment?_comment occupied blank isComment] at cut
  rw [splitComment, cut]
  simp [prepend, admits]

theorem Splits.splitComment_eq (splits : Splits code comment) :
    splitComment (withComment code comment) = (code, comment) := by
  cases comment with
  | none =>
    rw [withComment, splitComment]
    split
    next cut behind found =>
      rw [splits _ found]
      rfl
    next => rfl
  | some comment =>
    rw [withComment, append_assoc]
    exact splits.splitComment_append (cons_ne_nil _ _) rfl

/-- Whether the comment found in a text can be split off. -/
def admittedCut (text : Text) : Option Bool :=
  (cutComment? text).map fun cut => admitsComment cut.1

theorem admittedCut_of_unmarked (plain : '#' ∉ text) : admittedCut text = none := by
  rw [admittedCut, cutComment?_of_unmarked plain]
  rfl

theorem Splits.congr (splits : Splits code comment) (same : admittedCut again = admittedCut code)
    (admits : admitsComment again = true) : Splits again comment := by
  cases comment with
  | some comment =>
    obtain ⟨isComment, -, whole⟩ := splits
    refine ⟨isComment, admits, ?_⟩
    rw [admittedCut, admittedCut, whole] at same
    exact Option.map_eq_none_iff.mp same
  | none =>
    intro cut member
    have found : admittedCut again = some (admitsComment cut.1) := by
      rw [admittedCut, Option.mem_def.mp member]
      rfl
    rw [same] at found
    obtain ⟨inner, isCut, admitted⟩ := Option.map_eq_some_iff.mp found
    rw [← admitted]
    exact splits inner isCut

theorem trimmed_withComment (filled : again ≠ []) (trimmed : Trimmed again) (text : Text) :
    Trimmed (withComment again (splitComment (trim text)).2) := by
  rcases splitComment_cases (trim text) with
    whole | ⟨code, comment, gap, whole, isComment, -, -, same, -⟩
  · rw [whole]
    exact trimmed
  · rw [whole]
    constructor
    · intro c head
      obtain ⟨d, more, rfl⟩ := exists_cons_of_ne_nil filled
      exact trimmed.head c head
    · obtain ⟨more, rfl⟩ := head?_eq_some_iff.mp isComment.mark
      have final := (trimmed_trim text).last
      rw [same, ← append_assoc, getLast?_append_of_ne_nil _ (cons_ne_nil '#' more)] at final
      rwa [withComment, getLast?_append_of_ne_nil _ (cons_ne_nil '#' more)]

end Splitting

section Keys

variable {text key name body lead gap : Text}

/-- The key that makes a text a property, as long as its value lies on one line. -/
def propertyKey? (text : Text) : Option Text := do
  let (key, rest) ← key? text
  if ['/', '/'].isPrefixOf rest then none else some key

theorem propertyKey?_of_property {value : Text} (found : property? text = some (key, value)) :
    propertyKey? text = some key := by
  obtain ⟨rest, keyed, address, -, -⟩ := property?_eq_some_iff.mp found
  simp only [propertyKey?, keyed, Option.bind_eq_bind, Option.bind_some, address]
  rfl

theorem exists_property (unbroken : '\n' ∉ text) (found : propertyKey? text = some key) :
    ∃ value, property? text = some (key, value) := by
  simp only [propertyKey?, Option.bind_eq_bind, Option.bind_eq_some_iff, Prod.exists] at found
  obtain ⟨other, rest, keyed, plain⟩ := found
  split at plain
  next => cases plain
  next address =>
    cases plain
    refine ⟨trimLeft rest,
      property?_eq_some_iff.mpr ⟨rest, keyed, Bool.eq_false_iff.mpr address, rfl, ?_⟩⟩
    obtain ⟨-, gap, -, same⟩ := key?_eq_some_iff.mp keyed
    obtain ⟨blanks, -, whole⟩ := exists_trimLeft rest
    intro member
    apply unbroken
    rw [same, whole]
    simp [member]

theorem propertyKey?_append_brace (blank : allBlank gap = true) (lead rest : Text) :
    propertyKey? (lead ++ (gap ++ '{' :: rest)) = propertyKey? lead := by
  have slashless : (gap ++ '{' :: rest).head? ≠ some '/' := head?_append_ne blank rfl (by simp)
  rw [propertyKey?, propertyKey?, key?_append blank rfl (by decide) (by decide)]
  cases key? lead with
  | none => rfl
  | some parts => simp only [Option.map_some, Option.bind_eq_bind, Option.bind_some,
      isPrefixOf_slashes_append _ slashless]

end Keys

section Forms

variable {text code again key name body : Text}

theorem IsHeader.body_eq {other : Text} {more : Text × Text} (header : IsHeader text key name body)
    (found : IsHeader text more.1 more.2 other) : other = body := by
  have same := (blockHeader?_eq_some_iff.mpr header).symm.trans (blockHeader?_eq_some_iff.mpr found)
  simp only [Option.some.injEq, Prod.mk.injEq] at same
  exact same.2.2.symm

theorem IsHeader.exists_lead (header : IsHeader text key name body) :
    ∃ lead, text = lead ++ '{' :: body ∧ '#' ∉ lead ∧ '{' ∉ lead := by
  obtain ⟨first, second, third, blankFirst, blankSecond, blankThird, same⟩ := header.spaced
  have absent {mark : Char} (noBlank : isBlank mark = false) (noName : isNameChar mark = false)
      (other : mark ≠ ':') : mark ∉ key ++ (first ++ ':' :: (second ++ (name ++ third))) := by
    simp only [mem_append, mem_cons, not_or]
    refine ⟨fun member => ?_, not_mem_of_allBlank blankFirst noBlank, other,
      not_mem_of_allBlank blankSecond noBlank, fun member => ?_,
      not_mem_of_allBlank blankThird noBlank⟩
    · simp [isNameChar, header.identifier.word mark member] at noName
    · cases noName.symm.trans (header.named mark member)
  exact ⟨_, by simp [same], absent rfl rfl (by decide), absent rfl rfl (by decide)⟩

theorem IsHeader.head (header : IsHeader text key name body) :
    ∃ c ∈ text.head?, c ≠ '#' ∧ c ≠ '}' ∧ isBlank c = false := by
  obtain ⟨first, second, third, blank, -, -, same⟩ := header.spaced
  obtain ⟨c, head, other, closing, solid⟩ := (IsKeyed.of_blank header.identifier blank).head
    (second ++ (name ++ (third ++ '{' :: body)))
  refine ⟨c, ?_, other, closing, solid⟩
  rw [same]
  simpa using head

theorem IsHeader.propertyKey? (header : IsHeader text key name body) :
    propertyKey? text = some key := by
  obtain ⟨first, second, third, blankFirst, blankSecond, blankThird, same⟩ := header.spaced
  have keyed := (IsKeyed.of_blank header.identifier blankFirst).key? (second ++ name)
  have plain : ['/', '/'].isPrefixOf (second ++ name) = false := by
    refine isPrefixOf_slashes_append [] (head?_append_ne blankSecond rfl fun head => ?_)
    exact absurd (header.named '/' (mem_of_head? head)) (by decide)
  have whole : text = key ++ (first ++ [':']) ++ (second ++ name) ++ (third ++ '{' :: body) := by
    simp [same]
  rw [whole, propertyKey?_append_brace blankThird, Code.propertyKey?, keyed]
  simp only [Option.bind_eq_bind, Option.bind_some, plain]
  rfl

theorem IsHeader.append (header : IsHeader text key name body) (rest : Text) :
    IsHeader (text ++ rest) key name (body ++ rest) := by
  obtain ⟨first, second, third, blankFirst, blankSecond, blankThird, same⟩ := header.spaced
  refine ⟨header.identifier, header.named, first, second, third, blankFirst,
    blankSecond, blankThird, ?_⟩
  simp [same]

theorem isHeader_headerText (header : IsHeader text key name body) (inner : Text) :
    IsHeader (headerText key name ++ '{' :: inner) key name inner := by
  refine ⟨header.identifier, header.named, [], [' '],
    if name.isEmpty then [] else [' '], rfl, rfl, ?_, ?_⟩
  · split <;> rfl
  · unfold headerText
    split
    next empty => simp [List.isEmpty_iff.mp empty]
    next => simp

/-- Code and its spaced form, which a comment may follow as well. -/
structure Respaced (code again : Text) : Prop where
  trimmed : Trimmed again
  isCode : IsCode again
  cut : admittedCut again = admittedCut code
  admits : admitsComment again = true
  keyed : ∀ rest more, propertyKey? (again ++ rest) = propertyKey? (code ++ more)

namespace Respaced

variable {properties : List Text}

theorem filled (respaced : Respaced code again) : again ≠ [] := by
  rintro rfl
  obtain ⟨c, head, -⟩ := respaced.isCode
  cases head

variable {line : Text} (respaced : Respaced (splitComment (trim text)).1 again)
include respaced

theorem trimmed_line : Trimmed (withComment again (splitComment (trim text)).2) :=
  trimmed_withComment respaced.filled respaced.trimmed text

variable (same : trim line = withComment again (splitComment (trim text)).2)
include same

theorem isCode_line : IsCode (trim line) := by
  obtain ⟨c, head, other⟩ := respaced.isCode
  refine ⟨c, ?_, other⟩
  rw [same]
  cases (splitComment (trim text)).2 with
  | none => exact head
  | some comment =>
    rw [withComment, append_assoc]
    exact mem_head?_append_of_mem_head? head

theorem split_line : splitComment (trim line) = (again, (splitComment (trim text)).2) := by
  rw [same]
  exact ((splits_splitComment (trim text)).congr respaced.cut respaced.admits).splitComment_eq

theorem free_line (unbroken : '\n' ∉ text)
    (free : ∀ key value, property? (trim text) = some (key, value) → key ∉ properties) :
    ∀ key value, property? (trim line) = some (key, value) → key ∉ properties := by
  intro key value found
  have unbrokenTrim : '\n' ∉ trim text := fun member => unbroken (mem_of_mem_trim member)
  obtain ⟨more, whole⟩ := exists_behind_code (trim text)
  obtain ⟨rest, wholeLine⟩ := exists_behind_code (trim line)
  rw [respaced.split_line same] at wholeLine
  have keyed := propertyKey?_of_property found
  rw [wholeLine, respaced.keyed rest more, ← whole] at keyed
  obtain ⟨source, sourceFound⟩ := exists_property unbrokenTrim keyed
  exact free key source sourceFound

end Respaced

theorem admitsComment_of_suffix {c : Char} (mark : c = '{' ∨ c = '}') (lead : Text) :
    admitsComment (lead ++ [c]) = true := by
  rcases mark with rfl | rfl <;> simp [admitsComment, isSuffixOf_iff_suffix]

/-- Headers of the same type are read alike. -/
theorem respaced_open {named : Text} (header : IsHeader code key name [])
    (spaced : IsHeader again key named []) : Respaced code again := by
  have unmarked {text name : Text} (header : IsHeader text key name []) : '#' ∉ text := by
    obtain ⟨lead, same, plain, -⟩ := header.exists_lead
    rw [same]
    simpa using plain
  obtain ⟨c, head, other, -, solid⟩ := spaced.head
  obtain ⟨lead, same, -⟩ := spaced.exists_lead
  constructor
  · exact ⟨solid_head head solid, solid_last (same ▸ getLast?_concat) rfl⟩
  · exact ⟨c, head, other⟩
  · rw [admittedCut_of_unmarked (unmarked header), admittedCut_of_unmarked (unmarked spaced)]
  · exact same ▸ admitsComment_of_suffix (.inl rfl) lead
  · intro rest more
    rw [(spaced.append rest).propertyKey?, (header.append more).propertyKey?]

section Inline

variable {lead trail tail : Text}
  (header : IsHeader text key name (lead ++ (body ++ (trail ++ '}' :: tail))))
  (blankLead : allBlank lead = true) (blankTrail : allBlank trail = true)
  (ends : isBlockEnd tail = true) (trimmed : Trimmed body)
include header blankLead blankTrail ends trimmed

/-- The comment of a block on one line begins in its body, or it has none. -/
theorem admittedCut_inline (other : ¬ IsComment body) : admittedCut text = admittedCut body := by
  obtain ⟨front, same, unmarked, -⟩ := header.exists_lead
  have plain : '#' ∉ trail ++ '}' :: tail := by
    have absent := not_mem_of_isBlockEnd ends (c := '#') rfl (by decide)
    simp [absent, not_mem_of_allBlank blankTrail (c := '#') rfl]
  by_cases empty : body = []
  · subst empty
    rw [admittedCut_of_unmarked]
    · rfl
    · rw [same]
      simpa [unmarked, not_mem_of_allBlank blankLead (c := '#') rfl] using plain
  · have unquoted : (trail ++ '}' :: tail).any isQuote = false := by
      rw [any_append, any_isQuote_of_allBlank blankTrail]
      obtain ⟨gap, blank, rfl | rfl⟩ := isBlockEnd_iff.mp ends
      · simp [any_isQuote_of_allBlank blank, isQuote]
      · simp [any_isQuote_of_allBlank blank, isQuote, terminator]
    obtain ⟨c, rest, rfl⟩ := exists_cons_of_ne_nil empty
    have notComment : ¬ IsComment (c :: rest ++ (trail ++ '}' :: tail)) := by
      intro isComment
      refine other ⟨isComment.mark, ?_⟩
      have none_ := isComment.unquoted
      rw [any_append, Bool.or_eq_false_iff] at none_
      exact none_.1
    have opening : ∀ d ∈ (front ++ ['{']).getLast?, isBlank d = false :=
      solid_last getLast?_concat rfl
    have first : ∀ d ∈ (c :: rest ++ (trail ++ '}' :: tail)).head?, isBlank d = false :=
      fun d head => trimmed.head d head
    rw [admittedCut, same, append_cons, cutComment?_append (by simpa using unmarked) opening,
      cutComment?_gap blankLead first notComment, map_prepend,
      cutComment?_append_unquoted trimmed.last unquoted, admittedCut]
    cases found : cutComment? (c :: rest) with
    | none => simp [cutComment?_of_unmarked plain]
    | some parts =>
      obtain ⟨code, comment⟩ := parts
      simp only [Option.map_some, prepend]
      rw [admitsComment_append (code_ne_nil found trimmed.head)
        (getLast?_append_ne blankLead rfl (by simp))]

theorem inlineBlock?_of_header (unbroken : '\n' ∉ lead ++ body ++ trail) :
    inlineBlock? text = some (key, name, body) := by
  apply inlineBlock?_eq_some_iff.mpr
  refine ⟨lead ++ body ++ trail, tail, ?_, ends, unbroken, ?_⟩
  · simpa using header
  · exact (trimmed.trim_append blankLead blankTrail).symm

end Inline

/-- A block on one line is a header, blanks around the body, and an end. -/
theorem exists_inline (found : inlineBlock? code = some (key, name, body)) :
    ∃ lead trail tail, allBlank lead = true ∧ allBlank trail = true ∧ isBlockEnd tail = true ∧
      Trimmed body ∧ '\n' ∉ body ∧
        IsHeader code key name (lead ++ (body ++ (trail ++ '}' :: tail))) := by
  obtain ⟨inner, tail, header, ends, unbroken, rfl⟩ := inlineBlock?_eq_some_iff.mp found
  obtain ⟨lead, trail, blankLead, blankTrail, whole⟩ := exists_trim inner
  refine ⟨lead, trail, tail, blankLead, blankTrail, ends, trimmed_trim inner, ?_, ?_⟩
  · intro member
    apply unbroken
    rw [whole]
    simp [member]
  · rw [whole] at header
    simpa using header

theorem blockOpen?_of_header (header : IsHeader text key name body) (filled : body ≠ []) :
    blockOpen? text = none := by
  cases found : blockOpen? text with
  | none => rfl
  | some parts => exact absurd (header.body_eq (blockOpen?_eq_some_iff.mp found)).symm filled

/-- What ends a block opens none. -/
theorem not_brace_of_isBlockEnd {tail : Text} (ends : isBlockEnd tail = true) (lead : Text) :
    ['{'].isSuffixOf (lead ++ '}' :: tail) = false := by
  rw [isSuffixOf_append (cons_ne_nil '}' tail)]
  refine Bool.eq_false_iff.mpr fun brace => ?_
  have member : '{' ∈ '}' :: tail := (isSuffixOf_iff_suffix.mp brace).mem (by simp)
  have absent := not_mem_of_isBlockEnd ends (c := '{') rfl (by decide)
  simp [absent] at member

theorem inlineBlock?_of_brace (brace : ['{'].isSuffixOf code = true) :
    inlineBlock? code = none := by
  cases found : inlineBlock? code with
  | none => rfl
  | some parts =>
    obtain ⟨inner, tail, header, ends, -⟩ := inlineBlock?_eq_some_iff.mp found
    obtain ⟨lead, same, -⟩ := header.exists_lead
    have whole : code = (lead ++ '{' :: inner) ++ '}' :: tail := by simp [same]
    rw [whole, not_brace_of_isBlockEnd ends] at brace
    cases brace

theorem isBlockClose_of_brace (brace : ['{'].isSuffixOf code = true) :
    isBlockClose code = false := by
  apply Bool.eq_false_iff.mpr
  intro closes
  obtain ⟨tail, rfl, ends⟩ := isBlockClose_iff.mp closes
  cases (not_brace_of_isBlockEnd ends []).symm.trans brace

section Malformed

variable {lead gap space : Text} (solid : ∀ c ∈ lead.getLast?, isBlank c = false)
  (blank : allBlank gap = true)
include solid blank

theorem admittedCut_append_brace : admittedCut (lead ++ (gap ++ ['{'])) = admittedCut lead := by
  have unquoted : (gap ++ ['{']).any isQuote = false := by
    rw [any_append, any_isQuote_of_allBlank blank]
    rfl
  have plain : '#' ∉ gap ++ ['{'] := by simp [not_mem_of_allBlank blank (c := '#') rfl]
  rw [admittedCut, cutComment?_append_unquoted solid unquoted, admittedCut]
  cases cutComment? lead with
  | none => simp [cutComment?_of_unmarked plain]
  | some parts => rfl

/-- The blanks before the brace do not matter for a header. -/
theorem IsHeader.respace (blankSpace : allBlank space = true)
    (header : IsHeader (lead ++ (space ++ ['{'])) key name []) :
    IsHeader (lead ++ (gap ++ ['{'])) key name [] := by
  obtain ⟨first, second, third, blankFirst, blankSecond, blankThird, same⟩ := header.spaced
  have front : lead ++ space = key ++ (first ++ ':' :: (second ++ name)) ++ third := by
    have whole : (lead ++ space) ++ ['{'] =
        (key ++ (first ++ ':' :: (second ++ name)) ++ third) ++ ['{'] := by
      simpa using same
    exact append_cancel_right whole
  have trimmed := congrArg trimRight front
  rw [trimRight_append_of_allBlank blankSpace, trimRight_of_last solid,
    trimRight_append_of_allBlank blankThird] at trimmed
  by_cases empty : name = []
  · subst empty
    have colon : key ++ (first ++ ':' :: (second ++ [])) =
        (key ++ (first ++ [':'])) ++ second := by simp
    rw [colon, trimRight_append_of_allBlank blankSecond,
      trimRight_of_last (solid_last (c := ':') (by simp [getLast?_append]) rfl)] at trimmed
    refine ⟨header.identifier, header.named, first, [], gap, blankFirst, rfl, blank, ?_⟩
    simp [trimmed]
  · have last : ∀ c ∈ (key ++ (first ++ ':' :: (second ++ name))).getLast?, isBlank c = false := by
      intro c final
      have whole : key ++ (first ++ ':' :: (second ++ name)) =
          (key ++ (first ++ ':' :: second)) ++ name := by simp
      rw [whole, getLast?_append_of_ne_nil _ empty] at final
      exact isBlank_of_isNameChar (header.named c (mem_of_getLast? final))
    rw [trimRight_of_last last] at trimmed
    refine ⟨header.identifier, header.named, first, second, gap, blankFirst, blankSecond, blank, ?_⟩
    simp [trimmed]

end Malformed

end Forms

end Code

namespace Shape

/-- The spacing of a line of a shape. -/
def space (text : Text) : Shape → Text
  | .blockOpen .. | .inlineBlock .. => spaceOpener text
  | .blockClose => spaceClose text
  | .property .. | .segmentOpen .. | .segmentInline .. => spaceProperty text
  | .blank | .comment | .segmentContent | .segmentClose | .content => trim text

/-- The shape of a line once it is spaced. -/
def tidied : Shape → Shape
  | .property key value => .property key (tidyValue value)
  | .segmentOpen key value => .segmentOpen key (tidyValue value)
  | .segmentInline key value => .segmentInline key (tidyValue value)
  | shape => shape

/-- A line that is read the same way once it is spaced, and is spaced already then. -/
structure Respaces (properties : List Text) (text : Text) (shape : Shape) : Prop where
  trimmed : Trimmed (shape.space text)
  reading : ∀ again, trim again = shape.space text → Reading properties again shape.tidied
  stable : ∀ again, trim again = shape.space text → shape.tidied.space again = shape.space text

end Shape

namespace Layout

variable {properties : List Text} {text code key name body : Text}

/-- What stands behind the closing brace of a spaced block. -/
def spacedEnd (ended : Bool) : Text :=
  if ended then ' ' :: terminator else []

theorem isBlockEnd_spacedEnd (ended : Bool) : isBlockEnd (spacedEnd ended) = true := by
  cases ended <;> decide

theorem endsSegment_spacedEnd (lead : Text) (ended : Bool) :
    endsSegment (lead ++ '}' :: spacedEnd ended) = ended := by
  rcases endsSegment_of_isBlockEnd lead (isBlockEnd_spacedEnd ended) with
    ⟨ends, same⟩ | ⟨ends, same⟩
  · cases ended with
    | true => exact ends
    | false => cases same
  · cases ended with
    | true => cases same
    | false => exact ends

theorem last_spacedEnd (lead : Text) (ended : Bool) :
    ∃ c, (lead ++ '}' :: spacedEnd ended).getLast? = some c ∧ isBlank c = false := by
  rw [getLast?_append]
  cases ended with
  | true => exact ⟨';', rfl, rfl⟩
  | false => exact ⟨'}', rfl, rfl⟩

theorem admitsComment_spacedEnd (lead : Text) (ended : Bool) :
    admitsComment (lead ++ '}' :: spacedEnd ended) = true := by
  cases ended with
  | true =>
    rw [admitsComment, endsSegment_spacedEnd lead true]
    exact Bool.or_true _
  | false => exact admitsComment_of_suffix (.inr rfl) lead

theorem exists_blockText (unbroken : '\n' ∉ body) : ∃ lead trail, allBlank lead = true ∧
    allBlank trail = true ∧ '\n' ∉ lead ++ body ++ trail ∧
    blockText body = '{' :: (lead ++ (body ++ (trail ++ ['}']))) := by
  by_cases empty : body = []
  · subst empty
    exact ⟨[], [], rfl, rfl, by simp, rfl⟩
  · refine ⟨[' '], [' '], rfl, rfl, by simpa using unbroken, ?_⟩
    simp [blockText, empty]

/-- A block on one line is spaced as a block on one line with the same body. -/
theorem exists_spaced_inline (found : inlineBlock? code = some (key, name, body)) :
    ∃ lead trail, allBlank lead = true ∧ allBlank trail = true ∧ '\n' ∉ lead ++ body ++ trail ∧
      spaceOpenerCode code = headerText key name ++
        ('{' :: (lead ++ (body ++ (trail ++ '}' :: spacedEnd (endsSegment code))))) ∧
      IsHeader (spaceOpenerCode code) key name
        (lead ++ (body ++ (trail ++ '}' :: spacedEnd (endsSegment code)))) := by
  obtain ⟨_, _, _, -, -, -, -, unbroken, header⟩ := exists_inline found
  obtain ⟨lead, trail, blankLead, blankTrail, unbroken', block⟩ := exists_blockText unbroken
  have code_eq := spaceOpenerCode_of_inline (blockOpen?_of_header header (by simp)) found
  rw [← spacedEnd, block] at code_eq
  have written : spaceOpenerCode code = headerText key name ++
      ('{' :: (lead ++ (body ++ (trail ++ '}' :: spacedEnd (endsSegment code))))) := by
    simp [code_eq]
  refine ⟨lead, trail, blankLead, blankTrail, unbroken', written, ?_⟩
  rw [written]
  exact isHeader_headerText header _

theorem last_spaced_inline (found : inlineBlock? code = some (key, name, body)) :
    ∃ front, spaceOpenerCode code = front ++ '}' :: spacedEnd (endsSegment code) := by
  obtain ⟨lead, trail, -, -, -, written, -⟩ := exists_spaced_inline found
  exact ⟨headerText key name ++ '{' :: (lead ++ (body ++ trail)), by simp [written]⟩

theorem trimmed_spaced_inline (found : inlineBlock? code = some (key, name, body)) :
    Trimmed (spaceOpenerCode code) := by
  obtain ⟨_, _, -, -, -, -, spaced⟩ := exists_spaced_inline found
  obtain ⟨front, whole⟩ := last_spaced_inline found
  obtain ⟨c, last, solid⟩ := last_spacedEnd front (endsSegment code)
  obtain ⟨d, head, -, -, solidHead⟩ := spaced.head
  rw [← whole] at last
  exact ⟨solid_head head solidHead, solid_last last solid⟩

/-- The code of a block on one line, spaced. -/
theorem respaced_inline (found : inlineBlock? code = some (key, name, body))
    (other : ¬ IsComment body) :
    Respaced code (spaceOpenerCode code) ∧
      inlineBlock? (spaceOpenerCode code) = some (key, name, body) ∧
      ['{'].isSuffixOf (spaceOpenerCode code) = false ∧
      spaceOpenerCode (spaceOpenerCode code) = spaceOpenerCode code := by
  obtain ⟨lead, trail, tail, blankLead, blankTrail, ends, trimmed, -, header⟩ := exists_inline found
  obtain ⟨lead', trail', blankLead', blankTrail', unbroken', -, spaced⟩ :=
    exists_spaced_inline found
  have found' := inlineBlock?_of_header spaced blankLead' blankTrail' (isBlockEnd_spacedEnd _)
    trimmed unbroken'
  obtain ⟨front, whole⟩ := last_spaced_inline found
  have ended : endsSegment (spaceOpenerCode code) = endsSegment code := by
    rw [whole, endsSegment_spacedEnd]
  have noBrace := not_brace_of_isBlockEnd (isBlockEnd_spacedEnd (endsSegment code)) front
  rw [← whole] at noBrace
  obtain ⟨d, head, noMark, -, -⟩ := spaced.head
  refine ⟨⟨trimmed_spaced_inline found, ⟨d, head, noMark⟩, ?_, ?_, ?_⟩, found', noBrace, ?_⟩
  · rw [admittedCut_inline header blankLead blankTrail ends trimmed other,
      admittedCut_inline spaced blankLead' blankTrail' (isBlockEnd_spacedEnd _) trimmed other]
  · rw [whole]
    exact admitsComment_spacedEnd front _
  · intro rest more
    rw [(spaced.append rest).propertyKey?, (header.append more).propertyKey?]
  · rw [spaceOpenerCode_of_inline (blockOpen?_of_header spaced (by simp)) found', ended]
    exact (spaceOpenerCode_of_inline (blockOpen?_of_header header (by simp)) found).symm

/-- A header that cannot be read is spaced before its brace only. -/
theorem exists_malformed (brace : ['{'].isSuffixOf code = true) (trimmed : Trimmed code)
    (absent : blockOpen? code = none) : ∃ lead gap space, (∀ c ∈ lead.getLast?, isBlank c = false) ∧
      allBlank gap = true ∧ allBlank space = true ∧ code = lead ++ (gap ++ ['{']) ∧
      spaceOpenerCode code = lead ++ (space ++ ['{']) ∧
      trimLeft (lead ++ [' ', '{']) = lead ++ (space ++ ['{']) := by
  obtain ⟨front, same⟩ := isSuffixOf_iff_suffix.mp brace
  obtain ⟨gap, blank, parts⟩ := exists_trimRight front
  have spaced := spaceOpenerCode_of_other absent (inlineBlock?_of_brace brace)
    (before?_eq_some_iff.mpr same.symm)
  have whole : code = trimRight front ++ (gap ++ ['{']) := by
    rw [← same, ← append_assoc, ← parts]
  obtain ⟨space, blankSpace, written⟩ : ∃ space, allBlank space = true ∧
      trimLeft (trimRight front ++ [' ', '{']) = trimRight front ++ (space ++ ['{']) := by
    cases lead : trimRight front with
    | nil => exact ⟨[], rfl, rfl⟩
    | cons c lead =>
      refine ⟨[' '], rfl, trimLeft_of_head ?_⟩
      intro d head
      apply trimmed.head d
      rw [whole, lead]
      exact head
  exact ⟨trimRight front, gap, space, last_trimRight front, blank, blankSpace, whole,
    spaced.trans written, written⟩

/-- A header that cannot be read is spaced already once it is spaced, with its comment in the
same place. -/
theorem spaced_malformed (brace : ['{'].isSuffixOf code = true) (trimmed : Trimmed code)
    (absent : blockOpen? code = none) :
    Trimmed (spaceOpenerCode code) ∧ admittedCut (spaceOpenerCode code) = admittedCut code ∧
      blockOpen? (spaceOpenerCode code) = none ∧ ['{'].isSuffixOf (spaceOpenerCode code) = true ∧
      spaceOpenerCode (spaceOpenerCode code) = spaceOpenerCode code := by
  obtain ⟨lead, gap, space, solid, blank, blankSpace, whole, spaced, written⟩ :=
    exists_malformed brace trimmed absent
  have closed : blockOpen? (spaceOpenerCode code) = none := by
    cases found : blockOpen? (spaceOpenerCode code) with
    | none => rfl
    | some parts =>
      have header := blockOpen?_eq_some_iff.mp found
      rw [spaced] at header
      have source := blockOpen?_eq_some_iff.mpr (IsHeader.respace solid blank blankSpace header)
      rw [← whole, absent] at source
      cases source
  have ends : ['{'].isSuffixOf (spaceOpenerCode code) = true := by
    rw [spaced, ← append_assoc]
    exact isSuffixOf_iff_suffix.mpr (suffix_append _ _)
  refine ⟨⟨?_, ?_⟩, ?_, closed, ends, ?_⟩
  · rw [spaced, ← written]
    exact head_trimLeft _
  · rw [spaced, ← append_assoc]
    exact solid_last getLast?_concat rfl
  · rw [spaced, admittedCut_append_brace solid blankSpace, whole,
      admittedCut_append_brace solid blank]
  · have cut : before? ['{'] (spaceOpenerCode code) = some (lead ++ space) := by
      apply before?_eq_some_iff.mpr
      rw [spaced, append_assoc]
    rw [spaceOpenerCode_of_other closed (inlineBlock?_of_brace ends) cut,
      trimRight_append_of_allBlank blankSpace, trimRight_of_last solid, written, spaced]

/-- The code of a header that cannot be read, spaced. -/
theorem respaced_malformed (brace : ['{'].isSuffixOf code = true) (trimmed : Trimmed code)
    (isCode : IsCode code) (absent : blockOpen? code = none) :
    Respaced code (spaceOpenerCode code) ∧
      (key? (spaceOpenerCode code)).map Prod.fst = (key? code).map Prod.fst := by
  obtain ⟨solid, cut, -, ends, -⟩ := spaced_malformed brace trimmed absent
  obtain ⟨lead, gap, space, -, blank, blankSpace, whole, spaced, -⟩ :=
    exists_malformed brace trimmed absent
  refine ⟨⟨solid, ?_, cut, by simp [admitsComment, ends], ?_⟩, ?_⟩
  · cases lead with
    | cons c lead =>
      obtain ⟨d, start, other⟩ := isCode
      rw [whole] at start
      rw [spaced]
      exact ⟨d, start, other⟩
    | nil =>
      cases space with
      | nil => exact ⟨'{', by rw [spaced]; rfl, by decide⟩
      | cons b space =>
        simp only [allBlank_cons, Bool.and_eq_true] at blankSpace
        exact absurd (solid.head b (by rw [spaced]; rfl)) (by simp [blankSpace.1])
  · intro rest more
    rw [spaced, whole]
    simp only [append_assoc, singleton_append]
    rw [propertyKey?_append_brace blankSpace, propertyKey?_append_brace blank]
  · rw [spaced, whole, key?_append blankSpace rfl (by decide) (by decide),
      key?_append blank rfl (by decide) (by decide), Option.map_map, Option.map_map]
    rfl

theorem head_code (text : Text) : ∀ c ∈ (splitComment (trim text)).1.head?, isBlank c = false := by
  intro c head
  obtain ⟨rest, whole⟩ := exists_behind_code (trim text)
  apply (trimmed_trim text).head c
  rw [whole]
  exact mem_head?_append_of_mem_head? head

theorem trimmed_code (admits : admitsComment (splitComment (trim text)).1 = true) :
    Trimmed (splitComment (trim text)).1 := by
  obtain ⟨c, last, solid⟩ := last_of_admitsComment admits
  exact ⟨head_code text, solid_last last solid⟩

theorem isCode_code (isCode : IsCode (trim text))
    (admits : admitsComment (splitComment (trim text)).1 = true) :
    IsCode (splitComment (trim text)).1 := by
  obtain ⟨c, head, other⟩ := isCode
  refine ⟨c, ?_, other⟩
  obtain ⟨d, last, -⟩ := last_of_admitsComment admits
  obtain ⟨rest, whole⟩ := exists_behind_code (trim text)
  have filled : (splitComment (trim text)).1 ≠ [] := by
    rw [ne_eq, ← getLast?_eq_none_iff, last]
    simp
  rwa [whole, head?_append_of_ne_nil _ filled] at head

/-- The code of a header, spaced. -/
theorem respaced_opener {key name : Option Text} (brace : ['{'].isSuffixOf code = true)
    (trimmed : Trimmed code) (isCode : IsCode code)
    (opened : Shape.ofBlockOpener code = .blockOpen key name) :
    Respaced code (spaceOpenerCode code) ∧ ['{'].isSuffixOf (spaceOpenerCode code) = true ∧
      Shape.ofBlockOpener (spaceOpenerCode code) = .blockOpen key name ∧
      spaceOpenerCode (spaceOpenerCode code) = spaceOpenerCode code := by
  unfold Shape.ofBlockOpener at opened
  cases found : blockOpen? code with
  | some parts =>
    have header := blockOpen?_eq_some_iff.mp found
    have spacedHeader := isHeader_headerText header []
    have spaced := blockOpen?_eq_some_iff.mpr spacedHeader
    rw [found] at opened
    rw [spaceOpenerCode_of_open found]
    refine ⟨respaced_open header spacedHeader, ?_, ?_, spaceOpenerCode_of_open spaced⟩
    · exact isSuffixOf_iff_suffix.mpr (suffix_append _ _)
    · rw [Shape.ofBlockOpener, spaced]
      exact opened
  | none =>
    obtain ⟨-, -, closed, spacedBrace, stable⟩ := spaced_malformed brace trimmed found
    obtain ⟨respaced, sameKey⟩ := respaced_malformed brace trimmed isCode found
    rw [found] at opened
    refine ⟨respaced, spacedBrace, ?_, stable⟩
    rw [Shape.ofBlockOpener, closed]
    dsimp only at opened ⊢
    rw [← opened, ← sameKey]

theorem respaces_blockOpen {key name : Option Text} (unbroken : '\n' ∉ text)
    (reading : Shape.Reading properties text (.blockOpen key name)) :
    Shape.Respaces properties text (.blockOpen key name) := by
  cases reading with
  | blockOpen isCode stays free brace opened =>
    have admits : admitsComment (splitComment (trim text)).1 = true := by
      simp [admitsComment, brace]
    obtain ⟨respaced, spacedBrace, spacedOpened, stable⟩ :=
      respaced_opener brace (trimmed_code admits) (isCode_code isCode admits) opened
    refine ⟨respaced.trimmed_line, ?_, ?_⟩
    · intro again same
      refine .blockOpen (respaced.isCode_line same) ?_ (respaced.free_line same unbroken free) ?_ ?_
      all_goals rw [respaced.split_line same]
      exacts [isBlockClose_of_brace spacedBrace, spacedBrace, spacedOpened]
    · intro again same
      change withComment _ _ = withComment _ _
      rw [respaced.split_line same, stable]

theorem respaces_inlineBlock (unbroken : '\n' ∉ text)
    (reading : Shape.Reading properties text (.inlineBlock key name body))
    (other : ¬ IsComment body) :
    Shape.Respaces properties text (.inlineBlock key name body) := by
  cases reading with
  | inlineBlock isCode stays free noBrace found =>
    obtain ⟨respaced, spacedFound, spacedNoBrace, stable⟩ := respaced_inline found other
    refine ⟨respaced.trimmed_line, ?_, ?_⟩
    · intro again same
      refine .inlineBlock (respaced.isCode_line same) ?_
        (respaced.free_line same unbroken free) ?_ ?_
      all_goals rw [respaced.split_line same]
      · obtain ⟨inner, tail, header, -⟩ := inlineBlock?_eq_some_iff.mp spacedFound
        obtain ⟨c, head, -, noClose, -⟩ := header.head
        apply Bool.eq_false_iff.mpr
        intro closes
        obtain ⟨rest, closing, -⟩ := isBlockClose_iff.mp closes
        rw [show spaceOpenerCode _ = _ from closing] at head
        cases head
        exact noClose rfl
      · exact spacedNoBrace
      · exact spacedFound
    · intro again same
      change withComment _ _ = withComment _ _
      rw [respaced.split_line same, stable]

theorem respaced_close (closes : isBlockClose code = true) (ended : Bool) :
    Respaced code ('}' :: spacedEnd ended) := by
  obtain ⟨tail, rfl, ends⟩ := isBlockClose_iff.mp closes
  have unmarked {tail : Text} (ends : isBlockEnd tail = true) : '#' ∉ '}' :: tail := by
    simpa using not_mem_of_isBlockEnd ends rfl (by decide : '#' ≠ ';')
  have keyless (tail : Text) : propertyKey? ('}' :: tail) = none := rfl
  obtain ⟨c, last, solid⟩ := last_spacedEnd [] ended
  refine ⟨⟨?_, solid_last last solid⟩, ⟨'}', rfl, by decide⟩, ?_,
    admitsComment_spacedEnd [] ended, ?_⟩
  · exact solid_head (c := '}') rfl rfl
  · rw [admittedCut_of_unmarked (unmarked ends),
      admittedCut_of_unmarked (unmarked (isBlockEnd_spacedEnd ended))]
  · intro rest more
    rw [cons_append, cons_append, keyless, keyless]

theorem spaceClose_eq (text : Text) : spaceClose text = withComment
    ('}' :: spacedEnd (endsSegment (splitComment (trim text)).1)) (splitComment (trim text)).2 := by
  rw [spaceClose]
  cases endsSegment (splitComment (trim text)).1 <;> rfl

theorem spaceClose_of_split {ended : Bool} {comment : Option Text}
    (split : splitComment (trim text) = ('}' :: spacedEnd ended, comment)) :
    spaceClose text = withComment ('}' :: spacedEnd ended) comment := by
  have ends := endsSegment_spacedEnd [] ended
  rw [nil_append] at ends
  rw [spaceClose_eq, split]
  dsimp only
  rw [ends]

theorem respaces_blockClose (reading : Shape.Reading properties text .blockClose) :
    Shape.Respaces properties text .blockClose := by
  cases reading with
  | blockClose isCode closes =>
    have written := spaceClose_eq text
    have respaced := respaced_close closes (endsSegment (splitComment (trim text)).1)
    have trimmed := respaced.trimmed_line
    rw [← written] at trimmed
    refine ⟨trimmed, ?_, ?_⟩
    · intro again same
      have split := respaced.split_line (same.trans written)
      refine .blockClose (respaced.isCode_line (same.trans written)) ?_
      rw [split]
      exact isBlockClose_iff.mpr ⟨_, rfl, isBlockEnd_spacedEnd _⟩
    · intro again same
      exact (spaceClose_of_split (respaced.split_line (same.trans written))).trans written.symm

end Layout

namespace Shape

variable {properties : List Text} {text again : Text} {shape : Shape}

/-- A line outside segments is spaced without blanks around it. -/
theorem Reading.trimmed_space (reading : Reading properties text shape) (unbroken : '\n' ∉ text) :
    Trimmed (shape.space text) := by
  have whole := reading
  cases reading with
  | blank | comment | content => exact trimmed_trim text
  | blockOpen => exact (respaces_blockOpen unbroken whole).trimmed
  | inlineBlock _ _ _ _ found =>
    refine trimmed_withComment ?_ (trimmed_spaced_inline found) text
    obtain ⟨front, written⟩ := last_spaced_inline found
    simp [written]
  | blockClose => exact (respaces_blockClose whole).trimmed
  | property _ _ found | segmentOpen _ _ found | segmentInline _ _ found =>
    exact trimmed_spaceProperty found

/-- A line is read by what it says between its blanks. -/
theorem Reading.congr (reading : Reading properties text shape) (same : trim again = trim text) :
    Reading properties again shape := by
  rw [← read_eq_iff] at reading ⊢
  unfold read at reading ⊢
  rw [same]
  exact reading

/-- Every line outside segments is read the same way once it is spaced, unless it reopens
a block. -/
theorem Reading.respaces (reading : Reading properties text shape) (unbroken : '\n' ∉ text)
    (stays : ¬ shape.Reopens) : shape.Respaces properties text := by
  have whole := reading
  cases reading with
  | blank | comment | content =>
    exact ⟨trimmed_trim text, fun again => whole.congr, fun again same => same⟩
  | blockOpen => exact respaces_blockOpen unbroken whole
  | inlineBlock => exact respaces_inlineBlock unbroken whole stays
  | blockClose => exact respaces_blockClose whole
  | property _ _ found =>
    exact ⟨trimmed_spaceProperty found,
      fun again same => reading_property same whole stays,
      fun again same => spaceProperty_again found same⟩
  | segmentOpen _ _ found =>
    exact ⟨trimmed_spaceProperty found,
      fun again same => reading_segmentOpen same whole,
      fun again same => spaceProperty_again found same⟩
  | segmentInline _ _ found =>
    exact ⟨trimmed_spaceProperty found,
      fun again same => reading_segmentInline same whole,
      fun again same => spaceProperty_again found same⟩

end Shape

end LookML
