import LookML.Code
import LookML.Proofs.Blank
import LookML.Proofs.Cuts

/-!
# What the recognisers of code accept

Each recogniser accepts exactly the texts put together from its parts, with blanks
in the places where they may stand.
-/

namespace LookML.Code

open Text List

variable {c : Char} {text rest value name : Text}

/-- Texts that are an identifier. -/
structure IsIdentifier (text : Text) : Prop where
  start : ∃ c ∈ text.head?, isIdentifierStart c = true
  word : ∀ c ∈ text, isWord c = true

theorem isWord_of_isIdentifierStart (start : isIdentifierStart c = true) : isWord c = true := by
  simp only [isIdentifierStart, Bool.or_eq_true, beq_iff_eq] at start
  rcases start with letter | rfl
  · have ascii : c.toNat < 0x80 := by
      change (decide (c.val ≥ 'A'.val ∧ c.val ≤ 'Z'.val) ||
        (decide (c.val ≥ 'a'.val) && decide (c.val ≤ 'z'.val))) = true at letter
      simp only [Bool.or_eq_true, Bool.and_eq_true, decide_eq_true_eq, ge_iff_le,
        UInt32.le_iff_toNat_le] at letter
      simp at letter
      omega
    simp [isWord, ascii, Char.isAlphanum, letter]
  · decide

theorem identifier?_eq_some_iff {key : Text} :
    identifier? text = some (key, rest) ↔
      IsIdentifier key ∧ text = key ++ rest ∧ ∀ c ∈ rest.head?, isWord c = false := by
  constructor
  · intro found
    cases text with
    | nil => cases found
    | cons c text =>
      simp only [identifier?, Option.ite_none_right_eq_some, Option.some.injEq,
        Prod.mk.injEq] at found
      obtain ⟨start, rfl, rfl⟩ := found
      refine ⟨⟨⟨c, rfl, start⟩, ?_⟩, ?_, ?_⟩
      · exact forall_mem_cons.mpr ⟨isWord_of_isIdentifierStart start, fun _ => mem_takeWhile_imp⟩
      · rw [cons_append, takeWhile_append_dropWhile]
      · exact head_dropWhile isWord text
  · rintro ⟨⟨⟨c, head, start⟩, word⟩, rfl, ends⟩
    obtain ⟨later, rfl⟩ := head?_eq_some_iff.mp head
    have all : ∀ d ∈ later, isWord d = true := (forall_mem_cons.mp word).2
    simp [identifier?, start, takeWhile_append_of_head all ends, dropWhile_append_of_head all ends]

theorem isWord_colon : isWord ':' = false := by decide

/-- Blanks and a solid character that is no word character end an identifier. -/
theorem head_gap {p : Char → Bool} (blank : ∀ c, isBlank c = true → p c = false) {gap : Text}
    (spaced : allBlank gap = true) (ends : ∀ c ∈ rest.head?, p c = false) :
    ∀ c ∈ (gap ++ rest).head?, p c = false := by
  refine head_append (fun c head => blank c ?_) ends
  exact allBlank_iff.mp spaced c (mem_of_mem_head? head)

theorem trimLeft_gap {gap : Text} (spaced : allBlank gap = true)
    (solid : isBlank c = false) (rest : Text) : trimLeft (gap ++ c :: rest) = c :: rest := by
  rw [trimLeft_append_of_allBlank spaced]
  exact trimLeft_of_head (solid_head rfl solid)

theorem key?_eq_some_iff {key : Text} :
    key? text = some (key, rest) ↔
      IsIdentifier key ∧ ∃ gap, allBlank gap = true ∧ text = key ++ (gap ++ ':' :: rest) := by
  simp only [key?, Option.bind_eq_bind, Option.bind_eq_some_iff, Prod.exists,
    identifier?_eq_some_iff]
  constructor
  · rintro ⟨found, behind, ⟨identifier, rfl, -⟩, colon⟩
    split at colon
    next tail trimmed =>
      obtain ⟨rfl, rfl⟩ := Prod.mk.inj (Option.some.inj colon)
      obtain ⟨gap, spaced, same⟩ := exists_trimLeft behind
      exact ⟨identifier, gap, spaced, by rw [same, trimmed]⟩
    next => cases colon
  · rintro ⟨identifier, gap, spaced, rfl⟩
    refine ⟨key, gap ++ ':' :: rest, ⟨identifier, rfl, ?_⟩, ?_⟩
    · refine head_gap (fun c blank => isWord_of_isBlank blank) spaced ?_
      rintro c ⟨⟩
      exact isWord_colon
    · rw [trimLeft_gap spaced rfl]
      rfl

/-- A key with its colon holds only word characters and blanks. -/
theorem not_mem_keyed {key gap : Text} (identifier : IsIdentifier key)
    (blank : allBlank gap = true) (solid : isBlank c = false) (noWord : isWord c = false)
    (noColon : c ≠ ':') : c ∉ key ++ (gap ++ [':']) := by
  simp only [mem_append, mem_singleton, not_or]
  refine ⟨fun member => ?_, not_mem_of_allBlank blank solid, noColon⟩
  rw [identifier.word c member] at noWord
  cases noWord

/-- A key is not changed by what follows, unless it may go on there. -/
theorem key?_append {gap : Text} (blank : allBlank gap = true) (solid : isBlank c = false)
    (noWord : isWord c = false) (noColon : c ≠ ':') (lead rest : Text) :
    key? (lead ++ (gap ++ c :: rest)) =
      (key? lead).map fun (key, value) => (key, value ++ (gap ++ c :: rest)) := by
  apply Option.ext
  rintro ⟨key, value⟩
  simp only [Option.map_eq_some_iff, Prod.exists, Prod.mk.injEq, key?_eq_some_iff]
  constructor
  · rintro ⟨identifier, space, spaced, same⟩
    have absent := not_mem_keyed identifier spaced solid noWord noColon
    have split : lead ++ (gap ++ c :: rest) =
        key ++ (space ++ [':']) ++ value := by simpa using same
    rcases append_eq_append_iff.mp split with ⟨more, whole, behind⟩ | ⟨more, whole, rfl⟩
    · -- The colon would stand among the blanks.
      have inGap : allBlank more = true := by
        rcases append_eq_append_iff.mp behind with ⟨inner, rfl, ends⟩ | ⟨inner, rfl, -⟩
        · cases inner with
          | nil => rwa [append_nil]
          | cons d inner =>
            obtain ⟨rfl, -⟩ := cons.inj ends
            exact absurd (by rw [whole]; simp) absent
        · rw [allBlank_append, Bool.and_eq_true] at blank
          exact blank.1
      have colon : (lead ++ more).getLast? = some ':' := by rw [← whole]; simp
      obtain rfl := eq_nil_of_solid_last inGap (solid_last colon rfl)
      exact ⟨key, [], ⟨identifier, space, spaced, by simpa using whole.symm⟩, rfl, behind⟩
    · exact ⟨key, more, ⟨identifier, space, spaced, by simpa using whole⟩, rfl, rfl⟩
  · rintro ⟨_, more, ⟨identifier, space, spaced, rfl⟩, rfl, rfl⟩
    exact ⟨identifier, space, spaced, by simp⟩

theorem isPrefixOf_slashes_append (text : Text) (slashless : rest.head? ≠ some '/') :
    ['/', '/'].isPrefixOf (text ++ rest) = ['/', '/'].isPrefixOf text := by
  have none_ (more : Text) : ('/' :: more).isPrefixOf rest = false := by
    cases rest with
    | nil => rfl
    | cons c rest =>
      refine Bool.and_eq_false_iff.mpr (.inl (beq_eq_false_iff_ne.mpr ?_))
      rintro rfl
      exact slashless rfl
  rcases text with _ | ⟨c, _ | ⟨d, text⟩⟩
  · exact none_ _
  · simp only [cons_append, nil_append, List.isPrefixOf, none_]
  · simp only [cons_append, List.isPrefixOf]

theorem property?_eq_some_iff {key : Text} :
    property? text = some (key, value) ↔
      ∃ rest, key? text = some (key, rest) ∧ ['/', '/'].isPrefixOf rest = false ∧
        value = trimLeft rest ∧ '\n' ∉ value := by
  simp only [property?, Option.bind_eq_bind, Option.bind_eq_some_iff, Prod.exists]
  constructor
  · rintro ⟨found, rest, keyed, behind⟩
    split at behind
    · cases behind
    next address =>
      split at behind
      · cases behind
      next broken =>
        obtain ⟨rfl, rfl⟩ := Prod.mk.inj (Option.some.inj behind)
        exact ⟨rest, keyed, Bool.eq_false_iff.mpr address, rfl, by simpa using broken⟩
  · rintro ⟨rest, keyed, address, rfl, whole⟩
    refine ⟨key, rest, keyed, ?_⟩
    simp [address, whole]

theorem squash_of_property {key : Text} (found : property? text = some (key, value)) :
    squash text = squash (key ++ ':' :: value) := by
  obtain ⟨rest, keyed, -, rfl, -⟩ := property?_eq_some_iff.mp found
  obtain ⟨-, gap, spaced, rfl⟩ := key?_eq_some_iff.mp keyed
  simp [squash_cons, squash_of_allBlank spaced]

/-- The value of a property on a stripped line is stripped. -/
theorem trimmed_of_property {key : Text} (found : property? (trim text) = some (key, value)) :
    Trimmed value := by
  obtain ⟨rest, keyed, -, rfl, -⟩ := property?_eq_some_iff.mp found
  obtain ⟨-, gap, -, whole⟩ := key?_eq_some_iff.mp keyed
  refine ⟨head_trimLeft rest, fun c last => (trimmed_trim text).last c ?_⟩
  obtain ⟨lead, -, same⟩ := exists_trimLeft rest
  rw [whole, same, ← append_assoc, ← cons_append, ← append_assoc]
  exact mem_getLast?_append_of_mem_getLast? last

theorem isBlank_of_isNameChar (name : isNameChar c = true) : isBlank c = false := by
  cases blank : isBlank c with
  | false => rfl
  | true =>
    have each : ∀ c ∈ blanks, isNameChar c = false := by decide +kernel
    rw [each c (mem_blanks blank)] at name
    cases name

theorem isNameChar_of_isBlank (blank : isBlank c = true) : isNameChar c = false := by
  cases name : isNameChar c with
  | false => rfl
  | true =>
    rw [isBlank_of_isNameChar name] at blank
    cases blank

theorem isNameChar_brace : isNameChar '{' = false := by decide

/-- The beginning of a block, with blanks where they may stand. -/
structure IsHeader (text key name body : Text) : Prop where
  identifier : IsIdentifier key
  named : ∀ c ∈ name, isNameChar c = true
  spaced : ∃ first second third, allBlank first = true ∧ allBlank second = true ∧
    allBlank third = true ∧
    text = key ++ (first ++ ':' :: (second ++ (name ++ (third ++ '{' :: body))))

theorem blockHeader?_eq_some_iff {key body : Text} :
    blockHeader? text = some (key, name, body) ↔ IsHeader text key name body := by
  simp only [blockHeader?, Option.bind_eq_bind, Option.bind_eq_some_iff, Prod.exists,
    key?_eq_some_iff]
  constructor
  · rintro ⟨found, rest, ⟨identifier, first, blankFirst, rfl⟩, brace⟩
    split at brace
    next inner trimmed =>
      obtain ⟨rfl, same⟩ := Prod.mk.inj (Option.some.inj brace)
      obtain ⟨rfl, rfl⟩ := Prod.mk.inj same
      obtain ⟨second, blankSecond, restEq⟩ := exists_trimLeft rest
      obtain ⟨third, blankThird, behind⟩ := exists_trimLeft ((trimLeft rest).dropWhile isNameChar)
      refine ⟨identifier, fun c member => mem_takeWhile_imp member, first, second, third,
        blankFirst, blankSecond, blankThird, ?_⟩
      rw [trimmed] at behind
      rw [← behind, takeWhile_append_dropWhile, ← restEq]
    next => cases brace
  · rintro ⟨identifier, named, first, second, third, blankFirst, blankSecond, blankThird, rfl⟩
    refine ⟨key, _, ⟨identifier, first, blankFirst, rfl⟩, ?_⟩
    have ends : ∀ c ∈ (third ++ '{' :: body).head?, isNameChar c = false := by
      refine head_gap (fun c blank => isNameChar_of_isBlank blank) blankThird ?_
      rintro c ⟨⟩
      exact isNameChar_brace
    cases name with
    | nil =>
      rw [nil_append, ← append_assoc, trimLeft_gap (by simp [blankSecond, blankThird]) rfl]
      simp [isNameChar_brace, trimLeft, isBlank]
    | cons c name =>
      have solid := isBlank_of_isNameChar (named c mem_cons_self)
      rw [cons_append, trimLeft_gap blankSecond solid, ← cons_append,
        takeWhile_append_of_head named ends, dropWhile_append_of_head named ends,
        trimLeft_gap blankThird rfl]
      rfl

theorem blockOpen?_eq_some_iff {key : Text} :
    blockOpen? text = some (key, name) ↔ IsHeader text key name [] := by
  simp only [blockOpen?, Option.bind_eq_bind, Option.bind_eq_some_iff, Prod.exists,
    blockHeader?_eq_some_iff]
  constructor
  · rintro ⟨_, _, body, header, closed⟩
    split at closed
    next empty =>
      obtain ⟨rfl, rfl⟩ := Prod.mk.inj (Option.some.inj closed)
      rwa [List.isEmpty_iff.mp empty] at header
    next => cases closed
  · exact fun header => ⟨key, name, [], header, rfl⟩

theorem isBlockEnd_iff :
    isBlockEnd text = true ↔ ∃ gap, allBlank gap = true ∧
      (text = gap ∨ text = gap ++ terminator) := by
  simp only [isBlockEnd, Bool.or_eq_true, List.isEmpty_iff, beq_iff_eq]
  constructor
  · intro ends
    obtain ⟨gap, spaced, same⟩ := exists_trimLeft text
    refine ⟨gap, spaced, ends.imp (fun empty => ?_) (fun ended => ?_)⟩
    · rw [empty, append_nil] at same
      exact same
    · rwa [ended] at same
  · rintro ⟨gap, spaced, rfl | rfl⟩
    · exact .inl (trimLeft_eq_nil_iff.mpr spaced)
    · exact .inr (trimLeft_gap spaced rfl [';'])

theorem not_mem_of_isBlockEnd {tail : Text} (ends : isBlockEnd tail = true)
    (solid : isBlank c = false) (other : c ≠ ';') : c ∉ tail := by
  obtain ⟨gap, spaced, same⟩ := isBlockEnd_iff.mp ends
  have absent := not_mem_of_allBlank spaced solid
  rcases same with rfl | rfl <;> simp [terminator, absent, other]

theorem inlineBlock?_eq_some_iff {key body : Text} :
    inlineBlock? text = some (key, name, body) ↔
      ∃ inner tail, IsHeader text key name (inner ++ '}' :: tail) ∧ isBlockEnd tail = true ∧
        '\n' ∉ inner ∧ body = trim inner := by
  simp only [inlineBlock?, Option.bind_eq_bind, Option.bind_eq_some_iff, Prod.exists,
    blockHeader?_eq_some_iff]
  constructor
  · rintro ⟨_, _, rest, header, inner, tail, cut, closed⟩
    split at closed
    next ends =>
      obtain ⟨rfl, same⟩ := Prod.mk.inj (Option.some.inj closed)
      obtain ⟨rfl, rfl⟩ := Prod.mk.inj same
      rw [(cutLast?_eq_some_iff.mp cut).text_eq] at header
      simp only [Bool.and_eq_true, Bool.not_eq_true', contains_eq_mem,
        decide_eq_false_iff_not] at ends
      exact ⟨inner, tail, header, ends.1, ends.2, rfl⟩
    next => cases closed
  · rintro ⟨inner, tail, header, ends, whole, rfl⟩
    refine ⟨key, name, _, header, inner, tail, ?_, ?_⟩
    · refine cutLast?_eq_some_iff.mpr ⟨rfl, fun lead rest same => ?_⟩
      -- a later brace would stand in the end of the block
      rcases append_eq_append_iff.mp same with ⟨more, rfl, behind⟩ | ⟨more, rfl, behind⟩
      · cases more with
        | nil => simp
        | cons c more =>
          obtain ⟨rfl, rfl⟩ := cons.inj behind
          have absent := not_mem_of_isBlockEnd ends rfl (by decide : '}' ≠ ';')
          simp at absent
      · simp
    · simp [ends, whole]

theorem isBlockClose_iff :
    isBlockClose text = true ↔ ∃ tail, text = '}' :: tail ∧ isBlockEnd tail = true := by
  unfold isBlockClose
  split
  next tail => simp
  next other =>
    simp only [Bool.false_eq_true, false_iff]
    rintro ⟨tail, rfl, -⟩
    exact other tail rfl

/-- A comment: it begins with its mark and holds no quotes. -/
structure IsComment (text : Text) : Prop where
  mark : text.head? = some '#'
  unquoted : text.any isQuote = false

instance (text : Text) : Decidable (IsComment text) :=
  decidable_of_iff (text.head? = some '#' ∧ text.any isQuote = false)
    ⟨fun both => ⟨both.1, both.2⟩, fun comment => ⟨comment.mark, comment.unquoted⟩⟩

theorem commentAfterBlanks?_eq_some_iff {comment : Text} :
    commentAfterBlanks? text = some comment ↔
      IsComment comment ∧ ∃ gap, gap ≠ [] ∧ allBlank gap = true ∧ text = gap ++ comment := by
  simp only [commentAfterBlanks?, Option.ite_none_right_eq_some, Option.some.injEq,
    Bool.not_eq_true', ← Bool.not_eq_true]
  constructor
  · rintro ⟨⟨shorter, mark, unquoted⟩, rfl⟩
    obtain ⟨gap, spaced, same⟩ := exists_trimLeft text
    refine ⟨⟨mark, by simpa using unquoted⟩, gap, ?_, spaced, same⟩
    rintro rfl
    rw [nil_append] at same
    rw [← same] at shorter
    exact Nat.lt_irrefl _ shorter
  · rintro ⟨⟨mark, unquoted⟩, gap, occupied, spaced, rfl⟩
    obtain ⟨rest, rfl⟩ := head?_eq_some_iff.mp mark
    rw [trimLeft_gap spaced rfl]
    refine ⟨⟨?_, mark, by simpa using unquoted⟩, rfl⟩
    have := length_pos_iff.mpr occupied
    rw [length_append]
    omega

section

-- unfolding the test for a comment here costs far more than the equation is worth
attribute [local irreducible] commentAfterBlanks?

@[simp] theorem cutComment?_nil : cutComment? [] = none := rfl

theorem cutComment?_cons (c : Char) (text : Text) :
    cutComment? (c :: text) =
      match commentAfterBlanks? (c :: text) with
      | some comment => some ([], comment)
      | none => (cutComment? text).map fun (code, comment) => (c :: code, comment) := rfl

end

theorem cutComment?_eq_some {code comment : Text}
    (found : cutComment? text = some (code, comment)) :
    IsComment comment ∧ ∃ gap, gap ≠ [] ∧ allBlank gap = true ∧
      text = code ++ (gap ++ comment) := by
  induction text generalizing code with
  | nil =>
    rw [cutComment?_nil] at found
    cases found
  | cons c text ih =>
    rw [cutComment?_cons] at found
    split at found
    next here =>
      cases found
      exact commentAfterBlanks?_eq_some_iff.mp here
    next =>
      obtain ⟨⟨inner, _⟩, later, same⟩ := Option.map_eq_some_iff.mp found
      obtain ⟨rfl, rfl⟩ := Prod.mk.inj same
      obtain ⟨isComment, gap, occupied, spaced, rfl⟩ := ih later
      exact ⟨isComment, gap, occupied, spaced, rfl⟩

/-- A text without a comment is all code; otherwise blanks stand between its code
and its comment. -/
theorem splitComment_cases (text : Text) :
    splitComment text = (text, none) ∨
      ∃ code comment gap, splitComment text = (code, some comment) ∧ IsComment comment ∧
        gap ≠ [] ∧ allBlank gap = true ∧ text = code ++ (gap ++ comment) ∧
        admitsComment code = true := by
  unfold splitComment
  split
  next code comment found =>
    split
    next admits =>
      obtain ⟨isComment, gap, occupied, spaced, same⟩ := cutComment?_eq_some found
      exact .inr ⟨code, comment, gap, rfl, isComment, occupied, spaced, same, admits⟩
    next => exact .inl rfl
  next => exact .inl rfl

theorem exists_behind_code (text : Text) : ∃ rest, text = (splitComment text).1 ++ rest := by
  rcases splitComment_cases text with whole | ⟨code, comment, gap, whole, -, -, -, same, -⟩
  · exact ⟨[], by rw [whole, append_nil]⟩
  · exact ⟨gap ++ comment, by rw [whole, ← same]⟩

theorem last_terminator (lead : Text) : ∀ c ∈ (lead ++ terminator).getLast?, isBlank c = false :=
  solid_last (by rw [getLast?_append]; rfl) rfl

end LookML.Code
