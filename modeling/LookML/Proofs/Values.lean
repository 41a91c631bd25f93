import LookML.Proofs.Comments
import LookML.Proofs.Reading
import LookML.Proofs.Spacing

/-!
# Spaced properties are read again

A property keeps its key and, but for the blanks before its terminator, its value when
it is spaced, and it is spaced the same way again.
-/

namespace LookML

open Text Code List

variable {c : Char}

namespace Layout

/-- A value without blanks around it, with one space before its terminator. -/
def tidyValue (value : Text) : Text :=
  match before? terminator value with
  | some content => if (trim content).isEmpty then terminator else trim content ++ ' ' :: terminator
  | none => value

variable {value : Text}

theorem spaceValue_eq (trimmed : Trimmed value) :
    spaceValue value = if (tidyValue value).isEmpty then [] else ' ' :: tidyValue value := by
  rw [spaceValue, tidyValue, trimmed.trim_eq]
  cases before? terminator value with
  | none => rfl
  | some content =>
    dsimp only
    split
    · rfl
    · simp

/-- Only the blanks before a terminator change. -/
theorem tidyValue_cases (trimmed : Trimmed value) :
    tidyValue value = value ∨ ∃ content gap, Trimmed content ∧ content ≠ [] ∧
      allBlank gap = true ∧ value = content ++ (gap ++ terminator) ∧
      tidyValue value = content ++ ' ' :: terminator := by
  cases ended : before? terminator value with
  | none =>
    left
    simp only [tidyValue, ended]
  | some inner =>
    have whole := before?_eq_some_iff.mp ended
    obtain ⟨lead, gap, blankLead, blankGap, same⟩ := exists_trim inner
    have head := trimmed.head
    rw [whole, same, append_assoc, append_assoc] at head
    obtain rfl := eq_nil_of_solid blankLead head
    rw [nil_append] at same
    simp only [tidyValue, ended]
    cases empty : (trim inner).isEmpty with
    | true =>
      left
      rw [List.isEmpty_iff.mp empty, nil_append] at same
      rw [← same] at blankGap
      rw [whole, eq_nil_of_solid blankGap (whole ▸ trimmed.head)]
      rfl
    | false =>
      right
      refine ⟨trim inner, gap, trimmed_trim inner, ?_, blankGap, ?_, rfl⟩
      · intro none_
        rw [none_] at empty
        cases empty
      · rw [← append_assoc, ← same, whole]

theorem isQuote_of_isBlank (blank : isBlank c = true) : isQuote c = false := by
  have each : ∀ c ∈ blanks, isQuote c = false := by decide
  exact each c (mem_blanks blank)

theorem any_isQuote_of_allBlank {gap : Text} (blank : allBlank gap = true) :
    gap.any isQuote = false := by
  rw [any_eq_false]
  intro c member
  rw [isQuote_of_isBlank (allBlank_iff.mp blank c member)]
  exact Bool.false_ne_true

theorem trimmed_ended {content : Text} (solid : Trimmed content) (occupied : content ≠ [])
    (gap : Text) : Trimmed (content ++ (gap ++ terminator)) := by
  constructor
  · rw [head?_append_of_ne_nil _ occupied]
    exact solid.head
  · rw [← append_assoc]
    exact last_terminator _

theorem trimmed_tidyValue (trimmed : Trimmed value) : Trimmed (tidyValue value) := by
  rcases tidyValue_cases trimmed with same | ⟨content, gap, solid, occupied, -, -, same⟩
  · rwa [same]
  · rw [same]
    exact trimmed_ended solid occupied [' ']

theorem tidyValue_tidyValue (trimmed : Trimmed value) :
    tidyValue (tidyValue value) = tidyValue value := by
  rcases tidyValue_cases trimmed with same | ⟨content, gap, solid, occupied, -, -, same⟩
  · rw [same, same]
  · have ended : before? terminator (content ++ ' ' :: terminator) = some (content ++ [' ']) :=
      before?_eq_some_iff.mpr (by simp)
    have inner : trim (content ++ [' ']) = content := by
      have whole := solid.trim_append allBlank_nil (show allBlank [' '] = true from rfl)
      simpa using whole
    rw [same]
    simp only [tidyValue, ended, inner]
    rw [if_neg (by simpa using occupied)]

theorem endsSegment_tidyValue (trimmed : Trimmed value) :
    endsSegment (tidyValue value) = endsSegment value := by
  have ends (lead : Text) : endsSegment (lead ++ terminator) = true :=
    isSuffixOf_iff_suffix.mpr (suffix_append _ _)
  rcases tidyValue_cases trimmed with same | ⟨content, gap, -, -, -, whole, same⟩
  · rw [same]
  · rw [same, append_cons, ends, whole, ← append_assoc, ends]

theorem stripTerminator_of_ended {content gap : Text} (solid : Trimmed content)
    (occupied : content ≠ [])
    (blank : allBlank gap = true) : stripTerminator (content ++ (gap ++ terminator)) = content := by
  have ended : before? terminator (content ++ (gap ++ terminator)) = some (content ++ gap) :=
    before?_eq_some_iff.mpr (by simp)
  have inner : trim (content ++ gap) = content := by
    have whole := solid.trim_append allBlank_nil blank
    simpa using whole
  rw [stripTerminator, (trimmed_ended solid occupied gap).trim_eq, ended, Option.getD_some, inner]

theorem stripTerminator_tidyValue (trimmed : Trimmed value) :
    stripTerminator (tidyValue value) = stripTerminator value := by
  rcases tidyValue_cases trimmed with same | ⟨content, gap, solid, occupied, blank, whole, same⟩
  · rw [same]
  · have spaced : stripTerminator (content ++ ([' '] ++ terminator)) = content :=
      stripTerminator_of_ended solid occupied rfl
    rw [same, whole, stripTerminator_of_ended solid occupied blank]
    exact spaced

theorem isComment_tidyValue (trimmed : Trimmed value) :
    IsComment (tidyValue value) ↔ IsComment value := by
  rcases tidyValue_cases trimmed with same | ⟨content, gap, -, occupied, blank, whole, same⟩
  · rw [same]
  · obtain ⟨c, more, rfl⟩ := exists_cons_of_ne_nil occupied
    have unquoted := any_isQuote_of_allBlank blank
    rw [same, whole]
    constructor
    · intro comment
      refine ⟨comment.mark, ?_⟩
      have quotes := comment.unquoted
      simp only [any_append, Bool.or_eq_false_iff, unquoted, true_and] at quotes ⊢
      exact ⟨quotes.1, rfl⟩
    · intro comment
      refine ⟨comment.mark, ?_⟩
      have quotes := comment.unquoted
      simp only [any_append, Bool.or_eq_false_iff] at quotes ⊢
      exact ⟨quotes.1, rfl⟩

/-- The comment in a value begins where it began. -/
theorem cutComment?_tidyValue (trimmed : Trimmed value) :
    (cutComment? (tidyValue value)).map Prod.fst = (cutComment? value).map Prod.fst := by
  rcases tidyValue_cases trimmed with same | ⟨content, gap, solid, -, blank, whole, same⟩
  · rw [same]
  · have ends : cutComment? terminator = none := by
      rw [← append_nil terminator, cutComment?_append (by decide) (by decide), cutComment?_nil]
      rfl
    have behind {gap : Text} (blank : allBlank gap = true) :
        (cutComment? (content ++ (gap ++ terminator))).map Prod.fst =
          (cutComment? content).map Prod.fst := by
      have unquoted : (gap ++ terminator).any isQuote = false := by
        rw [any_append, any_isQuote_of_allBlank blank]
        rfl
      have code : ¬ IsComment terminator := not_isComment_cons (by decide) _
      have none_ : cutComment? (gap ++ terminator) = none := by
        rw [cutComment?_gap blank (by decide) code, ends]
        rfl
      rw [cutComment?_append_unquoted solid.last unquoted, none_]
      cases cutComment? content <;> rfl
    rw [same, whole, behind blank]
    exact behind (show allBlank [' '] = true from rfl)

end Layout

namespace Code

variable {lead text : Text}

section Suffixes

theorem suffix_append_iff {mark : Text} (enough : mark.length ≤ text.length) :
    mark <:+ lead ++ text ↔ mark <:+ text := by
  constructor
  · intro ends
    exact suffix_of_suffix_length_le ends (suffix_append lead text) enough
  · intro ends
    exact ends.trans (suffix_append lead text)

theorem endsSegment_append (occupied : text ≠ [])
    (apart : lead.getLast? ≠ some ';') : endsSegment (lead ++ text) = endsSegment text := by
  rw [Bool.eq_iff_iff, endsSegment, endsSegment, isSuffixOf_iff_suffix, isSuffixOf_iff_suffix]
  rcases text with - | ⟨c, - | ⟨d, text⟩⟩
  · exact absurd rfl occupied
  · constructor
    · intro ends
      obtain ⟨front, same⟩ := ends
      have whole : (front ++ [';']) ++ [';'] = lead ++ [c] := by
        rw [← same]
        simp [terminator]
      obtain ⟨rfl, -⟩ := append_inj' whole rfl
      simp at apart
    · intro ends
      have short := ends.length_le
      simp [terminator] at short
  · exact suffix_append_iff (by simp [terminator])

theorem isSuffixOf_append (occupied : text ≠ []) :
    [c].isSuffixOf (lead ++ text) = [c].isSuffixOf text := by
  rw [Bool.eq_iff_iff, isSuffixOf_iff_suffix, isSuffixOf_iff_suffix]
  exact suffix_append_iff (length_pos_iff.mpr occupied)

theorem admitsComment_append (occupied : text ≠ [])
    (apart : lead.getLast? ≠ some ';') : admitsComment (lead ++ text) = admitsComment text := by
  rw [admitsComment, admitsComment, isSuffixOf_append occupied, isSuffixOf_append occupied,
    endsSegment_append occupied apart]

end Suffixes

section Properties

variable {key gap space value : Text}

/-- A key and a colon, with blanks where they may stand. -/
structure IsKeyed (lead key : Text) : Prop where
  identifier : IsIdentifier key
  spaced : ∃ gap, allBlank gap = true ∧ lead = key ++ (gap ++ [':'])

namespace IsKeyed

theorem of_blank (identifier : IsIdentifier key) (blank : allBlank gap = true) :
    IsKeyed (key ++ (gap ++ [':'])) key :=
  ⟨identifier, gap, blank, rfl⟩

theorem key? (keyed : IsKeyed lead key) (rest : Text) : key? (lead ++ rest) = some (key, rest) := by
  obtain ⟨gap, blank, rfl⟩ := keyed.spaced
  apply key?_eq_some_iff.mpr
  refine ⟨keyed.identifier, gap, blank, ?_⟩
  simp

theorem last (keyed : IsKeyed lead key) : lead.getLast? = some ':' := by
  obtain ⟨gap, -, rfl⟩ := keyed.spaced
  simp [getLast?_append]

theorem not_mem {c : Char} (keyed : IsKeyed lead key) (solid : isBlank c = false)
    (noWord : isWord c = false) (noColon : c ≠ ':') : c ∉ lead := by
  obtain ⟨gap, blank, rfl⟩ := keyed.spaced
  exact not_mem_keyed keyed.identifier blank solid noWord noColon

/-- The first character of a line with a key is no brace and no mark of a comment. -/
theorem head (keyed : IsKeyed lead key) (rest : Text) :
    ∃ c ∈ (lead ++ rest).head?, c ≠ '#' ∧ c ≠ '}' ∧ isBlank c = false := by
  obtain ⟨gap, -, rfl⟩ := keyed.spaced
  obtain ⟨c, head, start⟩ := keyed.identifier.start
  obtain ⟨more, rfl⟩ := head?_eq_some_iff.mp head
  refine ⟨c, rfl, (by rintro rfl; cases start), (by rintro rfl; cases start), ?_⟩
  apply Bool.eq_false_iff.mpr
  intro blank
  have word := isWord_of_isIdentifierStart start
  rw [isWord_of_isBlank blank] at word
  cases word

theorem cutComment? (keyed : IsKeyed lead key) (rest : Text) :
    cutComment? (lead ++ rest) = (cutComment? rest).map (prepend lead) := by
  exact cutComment?_append (keyed.not_mem rfl (by decide) (by decide))
    (solid_last keyed.last rfl) rest

end IsKeyed

theorem property?_iff :
    property? text = some (key, value) ↔
      ∃ lead space, IsKeyed lead key ∧ allBlank space = true ∧ text = lead ++ (space ++ value) ∧
        (∀ c ∈ value.head?, isBlank c = false) ∧ ['/', '/'].isPrefixOf (space ++ value) = false ∧
        '\n' ∉ value := by
  rw [property?_eq_some_iff]
  constructor
  · intro found
    obtain ⟨rest, keyed, address, rfl, whole⟩ := found
    obtain ⟨identifier, gap, blank, rfl⟩ := key?_eq_some_iff.mp keyed
    obtain ⟨space, spaced, same⟩ := exists_trimLeft rest
    refine ⟨key ++ (gap ++ [':']), space, .of_blank identifier blank, spaced,
      ?_, head_trimLeft rest, ?_, whole⟩
    · rw [← same]
      simp
    · rwa [← same]
  · intro found
    obtain ⟨lead, space, keyed, spaced, rfl, solid, address, whole⟩ := found
    refine ⟨space ++ value, keyed.key? _, address, ?_, whole⟩
    rw [trimLeft_append_of_allBlank spaced, trimLeft_of_head solid]

/-- The code of a value: what stands before a comment that may follow it. -/
def valueCode (value : Text) : Text :=
  match cutComment? value with
  | some (code, _) => if admitsComment code then code else value
  | none => value

theorem code_ne_nil {code comment : Text} (found : cutComment? value = some (code, comment))
    (solid : ∀ c ∈ value.head?, isBlank c = false) : code ≠ [] := by
  obtain ⟨-, gap, occupied, blank, same⟩ := cutComment?_eq_some found
  rintro rfl
  exact occupied (eq_nil_of_solid blank (same ▸ solid))

theorem splitComment_of_keyed (keyed : IsKeyed lead key) (blank : allBlank space = true)
    (solid : ∀ c ∈ value.head?, isBlank c = false) (other : ¬ IsComment value) :
    (splitComment (lead ++ (space ++ value))).1 = lead ++ (space ++ valueCode value) := by
  have cut : cutComment? (lead ++ (space ++ value)) =
      (cutComment? value).map (prepend (lead ++ space)) := by
    rw [keyed.cutComment?, cutComment?_gap blank solid other, map_prepend]
  rw [splitComment, cut, valueCode]
  cases found : cutComment? value with
  | none => rfl
  | some parts =>
    obtain ⟨code, comment⟩ := parts
    simp only [Option.map_some, prepend]
    rw [admitsComment_append (code_ne_nil found solid)
      (getLast?_append_ne blank rfl (by rw [keyed.last]; simp))]
    split
    · simp
    · rfl

/-- A comment directly behind the colon is part of the value. -/
theorem splitComment_of_comment (keyed : IsKeyed lead key) (occupied : space ≠ [])
    (blank : allBlank space = true) (comment : IsComment value) :
    (splitComment (lead ++ (space ++ value))).1 = lead ++ (space ++ value) := by
  have cut : cutComment? (lead ++ (space ++ value)) = some (lead, value) := by
    rw [keyed.cutComment?, cutComment?_comment occupied blank comment]
    simp [prepend]
  have refuses : admitsComment lead = false := by
    obtain ⟨front, same⟩ := getLast?_eq_some_iff.mp keyed.last
    rw [same]
    simp only [admitsComment, endsSegment, terminator, List.isSuffixOf, reverse_append,
      reverse_cons, reverse_nil, nil_append, cons_append]
    rfl
  rw [splitComment, cut]
  dsimp only
  rw [refuses]
  rfl

/-- Whether a value makes its property a block depends on neither the blanks around the
colon nor those before a terminator. -/
theorem blockHeader?_of_keyed (keyed : IsKeyed lead key) (blank : allBlank space = true)
    (solid : ∀ c ∈ value.head?, isBlank c = false) :
    blockHeader? (lead ++ (space ++ value)) =
      match trimLeft (value.dropWhile isNameChar) with
      | '{' :: body => some (key, value.takeWhile isNameChar, body)
      | _ => none := by
  have trimmed : trimLeft (space ++ value) = value := by
    rw [trimLeft_append_of_allBlank blank, trimLeft_of_head solid]
  rw [blockHeader?, keyed.key?]
  change (match trimLeft ((trimLeft (space ++ value)).dropWhile isNameChar) with
    | '{' :: body => some (key, (trimLeft (space ++ value)).takeWhile isNameChar, body)
    | _ => none) = _
  rw [trimmed]

/-- A block on one line, from its name to its end. -/
def IsInline (value : Text) : Prop :=
  ∃ name third inner tail, (∀ c ∈ name, isNameChar c = true) ∧ allBlank third = true ∧
    '\n' ∉ inner ∧ isBlockEnd tail = true ∧
    value = (name ++ (third ++ '{' :: inner)) ++ '}' :: tail

theorem inlineBlock?_eq_none_iff (keyed : IsKeyed lead key)
    (blank : allBlank space = true) (solid : ∀ c ∈ value.head?, isBlank c = false) :
    inlineBlock? (lead ++ (space ++ value)) = none ↔ ¬ IsInline value := by
  constructor
  · intro absent inline
    obtain ⟨name, third, inner, tail, named, blankThird, unbroken, ends, rfl⟩ := inline
    obtain ⟨gap, blankGap, rfl⟩ := keyed.spaced
    have header : IsHeader (key ++ (gap ++ [':'])
        ++ (space ++ ((name ++ (third ++ '{' :: inner)) ++ '}' :: tail))) key name
          (inner ++ '}' :: tail) := by
      refine ⟨keyed.identifier, named, gap, space, third, blankGap, blank, blankThird, ?_⟩
      simp
    have found := inlineBlock?_eq_some_iff.mpr ⟨inner, tail, header, ends, unbroken, rfl⟩
    rw [absent] at found
    cases found
  · intro other
    cases found : inlineBlock? (lead ++ (space ++ value)) with
    | none => rfl
    | some block =>
      obtain ⟨key, name, body⟩ := block
      obtain ⟨inner, tail, header, ends, unbroken, -⟩ := inlineBlock?_eq_some_iff.mp found
      rw [← blockHeader?_eq_some_iff, blockHeader?_of_keyed keyed blank solid] at header
      split at header
      next _ brace =>
        obtain ⟨-, rest⟩ := Prod.mk.inj (Option.some.inj header)
        obtain ⟨rfl, rfl⟩ := Prod.mk.inj rest
        obtain ⟨third, blankThird, behind⟩ := exists_trimLeft (value.dropWhile isNameChar)
        rw [brace] at behind
        have whole : value = value.takeWhile isNameChar ++ value.dropWhile isNameChar :=
          takeWhile_append_dropWhile.symm
        rw [behind] at whole
        refine absurd ⟨value.takeWhile isNameChar, third, inner, tail, ?_,
          blankThird, unbroken, ends, ?_⟩ other
        · exact fun c member => mem_takeWhile_imp member
        · conv_lhs => rw [whole]
          simp
      next => cases header

/-- A block ends before the terminator, so the blanks there do not matter. -/
theorem IsInline.respace {content more : Text} (solid : Trimmed content)
    (blank : allBlank gap = true) (blankMore : allBlank more = true)
    (inline : IsInline (content ++ (gap ++ terminator))) :
    IsInline (content ++ (more ++ terminator)) := by
  obtain ⟨name, third, inner, tail, named, blankThird, unbroken, ends, whole⟩ := inline
  refine ⟨name, third, inner, more ++ terminator, named, blankThird, unbroken,
    isBlockEnd_iff.mpr ⟨more, blankMore, .inr rfl⟩, ?_⟩
  generalize name ++ (third ++ '{' :: inner) = front at whole
  obtain ⟨rest, blankRest, rfl | rfl⟩ := isBlockEnd_iff.mp ends
  · have last : some ';' = (front ++ '}' :: tail).getLast? := by
      rw [← whole]
      simp [terminator, getLast?_append]
    rw [append_cons] at last
    exact absurd last.symm (getLast?_append_ne blankRest rfl (by simp))
  · have cut : content ++ gap = front ++ '}' :: rest := by
      have both : (content ++ gap) ++ terminator = (front ++ '}' :: rest) ++ terminator := by
        simpa using whole
      exact append_cancel_right both
    have inside := congrArg trimRight cut
    rw [trimRight_append_of_allBlank blank, trimRight_of_last solid.last, append_cons,
      trimRight_append_of_allBlank blankRest,
      trimRight_of_last (solid_last getLast?_concat rfl)] at inside
    rw [inside]
    simp

theorem IsInline.of_tidyValue (trimmed : Trimmed value)
    (inline : IsInline (Layout.tidyValue value)) :
    IsInline value := by
  rcases Layout.tidyValue_cases trimmed with
    same | ⟨content, gap, solid, -, blank, whole, same⟩
  · rwa [same] at inline
  · rw [same] at inline
    rw [whole]
    exact respace solid (show allBlank [' '] = true from rfl) blank inline

theorem IsInline.not_comment (inline : IsInline value) : ¬ IsComment value := by
  intro comment
  obtain ⟨name, third, inner, tail, named, blank, -, -, rfl⟩ := inline
  have mark := comment.mark
  rw [append_assoc, append_assoc] at mark
  refine head_append (p := (· ≠ '#')) ?_ ?_ '#' mark rfl
  · rintro c head rfl
    exact absurd (named '#' (mem_of_head? head)) (by decide)
  · rintro c head rfl
    exact head?_append_ne blank rfl (by simp) head

theorem brace_of_keyed (keyed : IsKeyed lead key) (blank : allBlank space = true)
    (value : Text) : ['{'].isSuffixOf (lead ++ (space ++ value)) = ['{'].isSuffixOf value := by
  cases value with
  | cons c value =>
    rw [← append_assoc]
    exact isSuffixOf_append (cons_ne_nil c value)
  | nil =>
    rw [append_nil]
    apply Bool.eq_false_iff.mpr
    intro ends
    obtain ⟨front, same⟩ := isSuffixOf_iff_suffix.mp ends
    have last := getLast?_append_ne blank (c := '{') rfl (by rw [keyed.last]; simp)
    rw [← same] at last
    exact last getLast?_concat

theorem head_valueCode (solid : ∀ c ∈ value.head?, isBlank c = false) :
    ∀ c ∈ (valueCode value).head?, isBlank c = false := by
  rw [valueCode]
  split
  next code comment found =>
    obtain ⟨-, gap, -, -, same⟩ := cutComment?_eq_some found
    split
    · intro c head
      apply solid c
      rw [same]
      exact mem_head?_append_of_mem_head? head
    · exact solid
  · exact solid

theorem valueCode_tidyValue (trimmed : Trimmed value) :
    valueCode (Layout.tidyValue value) = valueCode value ∨
      (valueCode (Layout.tidyValue value) = Layout.tidyValue value ∧ valueCode value = value) := by
  have same := Layout.cutComment?_tidyValue trimmed
  rw [valueCode, valueCode]
  cases found : cutComment? value with
  | none =>
    rw [found, Option.map_none, Option.map_eq_none_iff] at same
    rw [same]
    exact .inr ⟨rfl, rfl⟩
  | some parts =>
    rw [found, Option.map_some, Option.map_eq_some_iff] at same
    obtain ⟨⟨code, comment⟩, again, rfl⟩ := same
    rw [again]
    dsimp only
    split
    · exact .inl rfl
    · exact .inr ⟨rfl, rfl⟩

theorem brace_tidyValue (trimmed : Trimmed value) :
    ['{'].isSuffixOf (Layout.tidyValue value) = ['{'].isSuffixOf value := by
  have ended (lead : Text) : ['{'].isSuffixOf (lead ++ terminator) = false := by
    rw [isSuffixOf_append (by simp [terminator])]
    rfl
  rcases Layout.tidyValue_cases trimmed with same | ⟨content, gap, -, -, -, whole, same⟩
  · rw [same]
  · rw [same, whole, append_cons, ended, ← append_assoc, ended]

theorem isBlockClose_of_head (head : text.head? = some c) (other : c ≠ '}') :
    isBlockClose (splitComment text).1 = false := by
  apply Bool.eq_false_iff.mpr
  intro closes
  obtain ⟨tail, same, -⟩ := isBlockClose_iff.mp closes
  obtain ⟨rest, whole⟩ := exists_behind_code text
  rw [whole, same] at head
  cases head
  exact other rfl

end Properties

end Code

namespace Shape

/-- Shapes whose line, once it is spaced, is read as the header of a block: what their
value holds becomes a comment, or stops being one. -/
def Reopens : Shape → Prop
  | .inlineBlock _ _ body => IsComment body
  | .property _ value => IsComment value ∧ ['{'].isSuffixOf value = true
  | _ => False

instance : DecidablePred Reopens
  | .inlineBlock _ _ body => inferInstanceAs (Decidable (IsComment body))
  | .property _ value =>
    inferInstanceAs (Decidable (IsComment value ∧ ['{'].isSuffixOf value = true))
  | .blank | .comment | .blockOpen .. | .blockClose | .segmentOpen .. | .segmentInline ..
  | .segmentContent | .segmentClose | .content => inferInstanceAs (Decidable False)

end Shape

namespace Layout

variable {properties : List Text} {text again key value : Text}

/-- A spaced property, from its key to its value. -/
theorem spaceProperty_eq (found : property? (trim text) = some (key, value)) :
    ∃ space, allBlank space = true ∧ (tidyValue value ≠ [] → space = [' ']) ∧
      (tidyValue value = [] → space = []) ∧
      spaceProperty text = (key ++ [':']) ++ (space ++ tidyValue value) := by
  have trimmed := trimmed_of_property found
  rw [spaceProperty_of_some found, spaceValue_eq trimmed]
  split
  next empty =>
    refine ⟨[], rfl, ?_, fun _ => rfl, ?_⟩
    · exact fun occupied => absurd (List.isEmpty_iff.mp empty) occupied
    · simp [List.isEmpty_iff.mp empty]
  next occupied =>
    refine ⟨[' '], rfl, fun _ => rfl, ?_, by simp⟩
    exact fun empty => absurd (List.isEmpty_iff.mpr empty) occupied

theorem not_mem_tidyValue (trimmed : Trimmed value) (absent : c ∉ value)
    (other : c ≠ ' ') : c ∉ tidyValue value := by
  rcases tidyValue_cases trimmed with same | ⟨content, gap, -, -, -, rfl, same⟩
  · rwa [same]
  · rw [same]
    simp only [mem_append, mem_cons, not_or] at absent ⊢
    exact ⟨absent.1, other, absent.2.2⟩

theorem trimmed_keyed {space : Text} (identifier : IsIdentifier key) (trimmed : Trimmed value)
    (empty : value = [] → space = []) : Trimmed ((key ++ [':']) ++ (space ++ value)) := by
  have keyed : IsKeyed (key ++ [':']) key := .of_blank identifier allBlank_nil
  obtain ⟨c, head, -, -, solid⟩ := keyed.head (space ++ value)
  refine ⟨solid_head head solid, ?_⟩
  by_cases none_ : value = []
  · rw [none_, empty none_]
    exact solid_last (c := ':') (by simp) rfl
  · rw [← append_assoc, getLast?_append_of_ne_nil _ none_]
    exact trimmed.last

theorem trimmed_spaceProperty (found : property? (trim text) = some (key, value)) :
    Trimmed (spaceProperty text) := by
  have trimmed := trimmed_tidyValue (trimmed_of_property found)
  obtain ⟨lead, -, keyed, -⟩ := property?_iff.mp found
  obtain ⟨space, -, -, empty, same⟩ := spaceProperty_eq found
  rw [same]
  exact trimmed_keyed keyed.identifier trimmed empty

theorem property?_spaceProperty (found : property? (trim text) = some (key, value)) :
    property? (spaceProperty text) = some (key, tidyValue value) := by
  have trimmed := trimmed_of_property found
  obtain ⟨lead, -, keyed, -, -, -, -, unbroken⟩ := property?_iff.mp found
  have colon : IsKeyed (key ++ ([] ++ [':'])) key := .of_blank keyed.identifier rfl
  obtain ⟨space, blank, occupied, empty, same⟩ := spaceProperty_eq found
  apply property?_iff.mpr
  refine ⟨_, space, colon, blank, same, (trimmed_tidyValue trimmed).head, ?_,
    not_mem_tidyValue trimmed unbroken (by decide)⟩
  by_cases none_ : tidyValue value = []
  · rw [none_, empty none_]
    rfl
  · rw [occupied none_]
    rfl

theorem spaceProperty_again (found : property? (trim text) = some (key, value))
    (same : trim again = spaceProperty text) : spaceProperty again = spaceProperty text := by
  have trimmed := trimmed_of_property found
  have found' : property? (trim again) = some (key, tidyValue value) := by
    rw [same]
    exact property?_spaceProperty found
  rw [spaceProperty_of_some found', spaceProperty_of_some found, spaceValue_eq trimmed,
    spaceValue_eq (trimmed_tidyValue trimmed), tidyValue_tidyValue trimmed]

section Readings

variable (same : trim again = spaceProperty text)
include same

theorem property_spaced (found : property? (trim text) = some (key, value)) :
    IsCode (trim again) ∧ isBlockClose (splitComment (trim again)).1 = false ∧
      property? (trim again) = some (key, tidyValue value) ∧
      endsSegment (tidyValue value) = endsSegment value := by
  have ends := endsSegment_tidyValue (trimmed_of_property found)
  obtain ⟨lead, -, keyed, -⟩ := property?_iff.mp found
  have colon : IsKeyed (key ++ [':']) key := .of_blank keyed.identifier allBlank_nil
  obtain ⟨space, -, -, -, spaced⟩ := spaceProperty_eq found
  obtain ⟨c, head, noMark, noBrace, -⟩ := colon.head (space ++ tidyValue value)
  rw [← spaced, ← same] at head
  exact ⟨⟨c, head, noMark⟩, isBlockClose_of_head head noBrace, same ▸ property?_spaceProperty found,
    ends⟩

theorem reading_segmentInline
    (reading : Shape.Reading properties text (.segmentInline key value)) :
    Shape.Reading properties again (.segmentInline key (tidyValue value)) := by
  cases reading with
  | segmentInline _ _ found known ended =>
    obtain ⟨code, stays, property, ends⟩ := property_spaced same found
    exact .segmentInline code stays property known (ends.trans ended)

theorem reading_segmentOpen
    (reading : Shape.Reading properties text (.segmentOpen key value)) :
    Shape.Reading properties again (.segmentOpen key (tidyValue value)) := by
  cases reading with
  | segmentOpen _ _ found known open_ =>
    obtain ⟨code, stays, property, ends⟩ := property_spaced same found
    exact .segmentOpen code stays property known (ends.trans open_)

/-- A spaced property is a property still, unless its value reopens a block. -/
theorem reading_property (reading : Shape.Reading properties text (.property key value))
    (stays : ¬ (Shape.property key value).Reopens) :
    Shape.Reading properties again (.property key (tidyValue value)) := by
  cases reading with
  | property _ _ found unknown noBrace noBlock =>
    have trimmed := trimmed_of_property found
    have trimmedTidy := trimmed_tidyValue trimmed
    obtain ⟨lead, gap, keyed, blankGap, whole, solid, -, -⟩ := property?_iff.mp found
    have colon : IsKeyed (key ++ [':']) key := .of_blank keyed.identifier allBlank_nil
    obtain ⟨space, blank, occupied, -, spaced⟩ := spaceProperty_eq found
    have tests : ['{'].isSuffixOf (splitComment (spaceProperty text)).1 = false ∧
        inlineBlock? (splitComment (spaceProperty text)).1 = none := by
      rw [spaced]
      by_cases comment : IsComment value
      · have commentTidy := (isComment_tidyValue trimmed).mpr comment
        have filled : tidyValue value ≠ [] := by
          intro empty
          rw [empty] at commentTidy
          cases commentTidy.mark
        have space_ := occupied filled
        rw [splitComment_of_comment colon (by simp [space_]) blank commentTidy,
          brace_of_keyed colon blank, brace_tidyValue trimmed,
          inlineBlock?_eq_none_iff colon blank trimmedTidy.head]
        constructor
        · apply Bool.eq_false_iff.mpr
          exact fun ends => stays ⟨comment, ends⟩
        · exact fun inline => inline.not_comment commentTidy
      · have codeTidy := fun isComment => comment ((isComment_tidyValue trimmed).mp isComment)
        rw [whole, splitComment_of_keyed keyed blankGap solid comment] at noBrace noBlock
        rw [brace_of_keyed keyed blankGap] at noBrace
        rw [inlineBlock?_eq_none_iff keyed blankGap (head_valueCode solid)] at noBlock
        rw [splitComment_of_keyed colon blank trimmedTidy.head codeTidy, brace_of_keyed colon blank,
          inlineBlock?_eq_none_iff colon blank (head_valueCode trimmedTidy.head)]
        rcases valueCode_tidyValue trimmed with code | ⟨code, codeValue⟩
        · rw [code]
          exact ⟨noBrace, noBlock⟩
        · rw [codeValue] at noBrace noBlock
          rw [code, brace_tidyValue trimmed]
          exact ⟨noBrace, fun inline => noBlock (inline.of_tidyValue trimmed)⟩
    obtain ⟨code, noClose, property, -⟩ := property_spaced same found
    rw [← same] at tests
    exact .property code noClose property unknown tests.1 tests.2

end Readings

end Layout

end LookML
