import LookML.Proofs.Respelling
import LookML.Proofs.Tokens

/-!
# Reading tokens back

A line is cut into the same tokens again after its plain text has been spelled:
spelling makes no atom begin where none began, and leaves atoms as they are.  Blanks
at the ends of a line do not count, so a spelled line is spelled as it stands.
-/

namespace LookML.Sql

open Text List

variable {markup : Bool} {c b : Char} {text tail content : Text} {delimiter : Delimiter}
  {tokens : List Token} {still : Option Text}

/-- Whether an atom begins with a character, given the one behind it. -/
def begins (markup : Bool) (c : Char) (next : Option Char) : Bool :=
  c == '{' && (next == some '%' || next == some '{') || c == '$' && next == some '{'
    || !markup && (c == '-' && next == some '-' || c == '\'' || c == '"')

theorem opening?_eq_none_iff :
    opening? (delimiters markup) (c :: text) = none ↔ begins markup c text.head? = false := by
  rw [opening?, find?_eq_none]
  cases markup <;> cases text <;>
    simp [begins, delimiters, sqlDelimiters, markupDelimiters] <;> grind

/-- Characters that no opener holds. -/
def inert (c : Char) : Bool :=
  c ∉ ['{', '%', '$', '-', '\'', '"']

theorem begins_of_inert (plain : inert c = true) (next : Option Char) :
    begins markup c next = false := by
  simp only [inert, mem_cons, not_mem_nil, or_false, not_or, decide_eq_true_eq] at plain
  simp [begins, plain]

theorem begins_of_none {next : Option Char}
    (quiet : begins markup c next = false) : begins markup c none = false := by
  simp only [begins, Bool.or_eq_false_iff, Bool.and_eq_false_iff] at quiet
  grind [begins]

theorem begins_of_inert_next {d : Char} {next : Option Char}
    (quiet : begins markup c next = false) (plain : inert d = true) :
    begins markup c (some d) = false := by
  simp only [inert, mem_cons, not_mem_nil, or_false, not_or, decide_eq_true_eq] at plain
  have alone := begins_of_none quiet
  simp_all [begins]

/-- A text in which no atom begins, given the character behind it. -/
def Calm (markup : Bool) (next : Option Char) : Text → Prop
  | [] => True
  | c :: text => begins markup c (text.head?.or next) = false ∧ Calm markup next text

namespace Calm

variable {next : Option Char}

theorem behind {lead : Text} (calm : Calm markup next (lead ++ text)) : Calm markup next text := by
  induction lead with
  | nil => exact calm
  | cons c lead ih => exact ih calm.2

theorem before (calm : Calm markup none (text ++ tail)) : Calm markup none text := by
  induction text with
  | nil => trivial
  | cons c text ih =>
    refine ⟨?_, ih calm.2⟩
    cases text with
    | nil => exact begins_of_none calm.1
    | cons d text => exact calm.1

/-- A text of inert characters in front of a calm text. -/
theorem append {lead : Text} (plain : ∀ c ∈ lead, inert c = true)
    (calm : Calm markup next text) : Calm markup next (lead ++ text) := by
  induction lead with
  | nil => exact calm
  | cons c lead ih =>
    refine ⟨begins_of_inert (plain c mem_cons_self) _, ih ?_⟩
    exact (forall_mem_cons.mp plain).2

theorem append_inert {other : Option Char} (calm : Calm markup next text)
    (plain : inert b = true) : Calm markup other (text ++ [b]) := by
  induction text with
  | nil => exact ⟨begins_of_inert plain _, trivial⟩
  | cons c text ih =>
    refine ⟨?_, ih calm.2⟩
    cases text with
    | nil => exact begins_of_inert_next calm.1 plain
    | cons d text => exact calm.1

end Calm

theorem inert_of_isPathChar (path : isPathChar c = true) : inert c = true := by
  have each : ∀ c ∈ ['{', '%', '$', '-', '\'', '"'], isPathChar c = false := by decide +kernel
  rw [inert, decide_eq_true_eq]
  intro member
  rw [each c member] at path
  cases path

theorem inert_of_isBlank (blank : isBlank c = true) : inert c = true := by
  have each : ∀ c ∈ blanks, inert c = true := by decide +kernel
  exact each c (mem_blanks blank)

theorem inert_of_isOperatorChar (operator : isOperatorChar c = true) : inert c = true := by
  simp only [isOperatorChar, Bool.or_eq_true, beq_iff_eq] at operator
  rcases operator with ((rfl | rfl) | rfl) | rfl <;> rfl

theorem inert_of_mem_caseForms (letter : c ∈ caseForms) : inert c = true :=
  inert_of_isPathChar (isPathChar_of_mem_caseForms letter)

/-- The first character of a spelled text is that of the text, or an inert one. -/
theorem Worded.head {result : Text} (worded : Worded text result) :
    result.head? = text.head? ∨ ∃ d, result.head? = some d ∧ inert d = true := by
  have letter {word rest : Text} (occupied : word ≠ []) (letters : ∀ c ∈ word, c ∈ caseForms) :
      ∃ d, (word ++ rest).head? = some d ∧ inert d = true := by
    obtain ⟨d, later, rfl⟩ := exists_cons_of_ne_nil occupied
    exact ⟨d, rfl, inert_of_mem_caseForms (letters d mem_cons_self)⟩
  cases worded with
  | nil | other _ _ => exact .inl rfl
  | @phrase first gap second text result completes rest =>
    have letters := completes.phrase.letters.1
    have ends : ∀ c ∈ (' ' :: (upper second ++ result)).head?, isPathChar c = false := by
      intro c head
      cases head
      rfl
    exact .inr (letter (completes.wholeWord.upper letters ends).occupied
      (mem_caseForms_upper letters))
  | keyword whole _ known rest =>
    have occupied := (whole.upper known.letters (rest.ends whole.ends)).occupied
    exact .inr (letter occupied (mem_caseForms_upper known.letters))
  | word whole _ _ _ =>
    obtain ⟨d, later, same⟩ := exists_cons_of_ne_nil whole.occupied
    left
    rw [same]
    rfl

section Spelling

variable {next : Option Char} {result : Text}

theorem calm_cons_of_head (calm : Calm markup next (c :: text)) (rest : Calm markup next result)
    (head : result.head? = text.head? ∨ ∃ d, result.head? = some d ∧ inert d = true) :
    Calm markup next (c :: result) := by
  refine ⟨?_, rest⟩
  rcases head with same | ⟨d, head, plain⟩
  · rw [same]
    exact calm.1
  · rw [head, Option.some_or]
    exact begins_of_inert_next calm.1 plain

theorem Worded.calm (worded : Worded text result) (calm : Calm markup next text) :
    Calm markup next result := by
  induction worded with
  | nil => exact calm
  | other _ rest ih => exact calm_cons_of_head calm (ih calm.2) rest.head
  | phrase completes _ ih =>
    obtain ⟨letters, lettersSecond⟩ := completes.phrase.letters
    have plain {word : Text} (letters : ∀ c ∈ word, c ∈ caseForms) :
        ∀ c ∈ upper word, inert c = true :=
      fun c member => inert_of_mem_caseForms (mem_caseForms_upper letters c member)
    have space : ∀ c ∈ [' '], inert c = true := by decide
    exact .append (plain letters)
      (.append space (.append (plain lettersSecond) (ih calm.behind.behind.behind)))
  | keyword _ _ known _ ih =>
    refine .append ?_ (ih calm.behind)
    exact fun c member => inert_of_mem_caseForms (mem_caseForms_upper known.letters c member)
  | word whole _ _ _ ih =>
    refine .append ?_ (ih calm.behind)
    exact fun c member => inert_of_isPathChar (whole.path c member)

theorem head_of_spaced {before : Option Char} (spaced : Rewritten spacingAt before text result) :
    result.head? = text.head? ∨ ∃ d, result.head? = some d ∧ inert d = true := by
  cases spaced with
  | nil | plain => exact .inl rfl
  | found _ present =>
    obtain ⟨-, rfl, -⟩ := exists_of_spacingAt present
    exact .inr ⟨' ', rfl, rfl⟩

theorem calm_of_spaced {before : Option Char} (spaced : Rewritten spacingAt before text result)
    (calm : Calm markup next text) : Calm markup next result := by
  induction spaced with
  | nil => exact calm
  | plain _ rest ih => exact calm_cons_of_head calm (ih calm.2) (head_of_spaced rest)
  | found _ present _ ih =>
    obtain ⟨known, rfl, -⟩ := exists_of_spacingAt present
    refine .append ?_ (ih calm.behind)
    intro c member
    simp only [mem_cons, mem_append, not_mem_nil, or_false] at member
    rcases member with rfl | operator | rfl
    · rfl
    · exact inert_of_isOperatorChar ((operatorChars_operators _ known).2 c operator)
    · rfl

theorem calm_squeezeSpaces (calm : Calm markup next text) :
    Calm markup next (squeezeSpaces text) := by
  induction text with
  | nil => exact calm
  | cons c text ih =>
    rw [squeezeSpaces]
    split
    · exact ih calm.2
    · exact calm_cons_of_head calm (ih calm.2) (.inl (head?_squeezeSpaces text))

theorem calm_spell (calm : Calm markup next text) : Calm markup next (spell text) :=
  calm_squeezeSpaces
    (calm_of_spaced (spaced_spaceOperators _) ((worded_spellKeywords text).calm calm))

end Spelling

section Atoms

theorem opening?_of_mem (known : delimiter ∈ delimiters markup) (rest : Text) :
    opening? (delimiters markup) (delimiter.opener ++ rest) = some delimiter := by
  cases markup <;>
    simp only [delimiters, sqlDelimiters, markupDelimiters, Bool.false_eq_true, if_true, if_false,
      cons_append, nil_append, mem_cons, not_mem_nil, or_false] at known
  · rcases known with rfl | rfl | rfl | rfl | rfl | rfl <;> rfl
  · rcases known with rfl | rfl | rfl <;> rfl

variable {closer body rest : Text}

theorem throughCloser?_append (closes : throughCloser? closer body = some (body, []))
    (rest : Text) : throughCloser? closer (body ++ rest) = some (body, rest) := by
  obtain ⟨other, inner, ends, cut⟩ := throughCloser?_eq_some_iff.mp closes
  exact throughCloser?_eq_some_iff.mpr ⟨other, inner, ends, cut.append rest⟩

theorem throughCloser?_take (closes : throughCloser? closer text = some (body, rest)) :
    throughCloser? closer body = some (body, []) := by
  obtain ⟨other, inner, rfl, whole, first⟩ := throughCloser?_eq_some_iff.mp closes
  have shorter : FirstCut closer (inner ++ closer) inner [] := by
    refine ⟨by simp, ?_⟩
    intro lead behind split
    apply first lead (behind ++ rest)
    rw [whole, ← append_assoc, split]
    simp
  exact throughCloser?_eq_some_iff.mpr ⟨other, inner, rfl, shorter⟩

end Atoms

/-- Tokens as a line outside atoms is cut into them, with the closer of the atom still
open at its end. -/
inductive Scanned (markup : Bool) : List Token → Option Text → Prop
  | nil : Scanned markup [] none
  | text {content : Text} {tokens : List Token} {still : Option Text} (occupied : content ≠ [])
      (calm : Calm markup (written tokens).head? content)
      (atoms : ∀ other later, tokens ≠ .text other :: later) (rest : Scanned markup tokens still) :
      Scanned markup (.text content :: tokens) still
  | closed {delimiter : Delimiter} {body : Text} {tokens : List Token} {still : Option Text}
      (known : delimiter ∈ delimiters markup)
      (closes : throughCloser? delimiter.closer body = some (body, []))
      (rest : Scanned markup tokens still) :
      Scanned markup (.atom (delimiter.opener ++ body) :: tokens) still
  | opened {delimiter : Delimiter} {body : Text} (known : delimiter ∈ delimiters markup)
      (remains : throughCloser? delimiter.closer body = none) :
      Scanned markup [.atom (delimiter.opener ++ body)]
        (if delimiter.closer = lineEnd then none else some delimiter.closer)

theorem exists_opener (known : delimiter ∈ delimiters markup) :
    ∃ c more, delimiter.opener = c :: more ∧ isBlank c = false := by
  have each : ∀ delimiter ∈ delimiters markup,
      ∀ c ∈ delimiter.opener.head?, isBlank c = false := by
    cases markup <;> decide
  obtain ⟨c, more, same⟩ := exists_cons_of_ne_nil (opener_delimiters markup delimiter known)
  exact ⟨c, more, same, each delimiter known c (by rw [same]; rfl)⟩

namespace Scanned

theorem scan_text (occupied : content ≠ []) (calm : Calm markup text.head? content)
    (atoms : ∀ other later, (scan (delimiters markup) text).1 ≠ .text other :: later) :
    scan (delimiters markup) (content ++ text) =
      (.text content :: (scan (delimiters markup) text).1, (scan (delimiters markup) text).2) := by
  induction content with
  | nil => exact absurd rfl occupied
  | cons c content ih =>
    have quiet : opening? (delimiters markup) (c :: (content ++ text)) = none := by
      rw [opening?_eq_none_iff, head?_append]
      exact calm.1
    rw [cons_append, scan, quiet]
    cases content with
    | nil =>
      cases scanned : (scan (delimiters markup) text).1 with
      | nil => simp [Token.consText, scanned]
      | cons token later =>
        cases token with
        | text other => exact absurd scanned (atoms other later)
        | atom content => simp [Token.consText, scanned]
    | cons d content =>
      rw [ih (cons_ne_nil _ _) calm.2]
      rfl

/-- Tokens are what a line is cut into exactly when nothing would be cut otherwise. -/
theorem scan_eq (scanned : Scanned markup tokens still) :
    scan (delimiters markup) (written tokens) = (tokens, still) := by
  induction scanned with
  | nil => simp [scan]
  | @text content tokens still occupied calm atoms rest ih =>
    rw [written_cons, Token.content, scan_text occupied calm (by rw [ih]; exact atoms), ih]
  | @closed delimiter body tokens still known closes rest ih =>
    obtain ⟨c, more, shape, -⟩ := exists_opener known
    have opens := opening?_of_mem known (body ++ written tokens)
    rw [written_cons, Token.content, append_assoc, shape, cons_append]
    rw [shape, cons_append] at opens
    rw [scan, opens]
    have skipped : (more ++ (body ++ written tokens)).drop (delimiter.opener.length - 1) =
        body ++ written tokens := by
      rw [shape, length_cons, Nat.add_sub_cancel, drop_left]
    have found := throughCloser?_append closes (written tokens)
    rw [← skipped] at found
    dsimp only
    split
    next absent => rw [found] at absent; cases absent
    next again =>
      rw [found] at again
      cases again
      rw [ih, shape]
  | @opened delimiter body known remains =>
    obtain ⟨c, more, shape, -⟩ := exists_opener known
    have opens := opening?_of_mem known body
    rw [written_cons, Token.content, shape, cons_append, written_nil, append_nil]
    rw [shape, cons_append] at opens
    rw [scan, opens]
    have skipped : (more ++ body).drop (delimiter.opener.length - 1) = body := by
      rw [shape, length_cons, Nat.add_sub_cancel, drop_left]
    rw [← skipped] at remains
    dsimp only
    split
    · rfl
    next found => rw [remains] at found; cases found

theorem consText (quiet : begins markup c (written tokens).head? = false)
    (scanned : Scanned markup tokens still) : Scanned markup (Token.consText c tokens) still := by
  have calm : Calm markup (written tokens).head? [c] := ⟨quiet, trivial⟩
  cases scanned with
  | nil => exact .text (cons_ne_nil _ _) calm (by simp) .nil
  | @text content tokens still occupied more atoms rest =>
    refine .text (cons_ne_nil _ _) ⟨?_, more⟩ atoms rest
    rwa [← head?_append]
  | closed known closes rest =>
    exact .text (cons_ne_nil _ _) calm (by simp) (.closed known closes rest)
  | opened known remains =>
    exact .text (cons_ne_nil _ _) calm (by simp) (.opened known remains)

end Scanned

theorem scanned_scan (markup : Bool) (text : Text) :
    Scanned markup (scan (delimiters markup) text).1 (scan (delimiters markup) text).2 := by
  have atom {c : Char} {text : Text} {delimiter : Delimiter}
      (present : opening? (delimiters markup) (c :: text) = some delimiter) :
      delimiter ∈ delimiters markup ∧
        c :: text = delimiter.opener ++ text.drop (delimiter.opener.length - 1) := by
    obtain ⟨known, tail, same⟩ := opening?_eq_some present
    obtain ⟨d, more, shape, -⟩ := exists_opener known
    rw [shape, cons_append] at same
    obtain ⟨rfl, rfl⟩ := cons.inj same
    refine ⟨known, ?_⟩
    rw [shape, length_cons, Nat.add_sub_cancel, drop_left, cons_append]
  fun_induction scan (delimiters markup) text with
  | case1 => exact .nil
  | case2 c text absent scanned ih =>
    refine Scanned.consText ?_ ih
    rw [written_scan, ← opening?_eq_none_iff]
    exact absent
  | case3 c text delimiter present remains =>
    obtain ⟨known, same⟩ := atom present
    have opened := Scanned.opened known remains
    rwa [← same] at opened
  | case4 c text delimiter present body rest closes scanned ih =>
    exact .closed (atom present).1 (throughCloser?_take closes) ih

/-- A token with its plain text spelled. -/
def Token.spelled : Token → Token
  | .text content => .text (spell content)
  | .atom content => .atom content

theorem written_spelled (tokens : List Token) :
    written (tokens.map Token.spelled) = tokens.flatMap spellToken := by
  rw [written, flatMap_map]
  congr 1
  funext token
  cases token <;> rfl

theorem spellToken_spelled (token : Token) : spellToken token.spelled = spellToken token := by
  cases token with
  | text content => exact spell_spell content
  | atom content => rfl

theorem Scanned.head?_spelled
    (scanned : Scanned markup tokens still) (atoms : ∀ other later, tokens ≠ .text other :: later) :
    (tokens.flatMap spellToken).head? = (written tokens).head? := by
  cases scanned with
  | nil => rfl
  | text => exact absurd rfl (atoms _ _)
  | closed known _ _ =>
    obtain ⟨c, more, shape, -⟩ := exists_opener known
    simp [spellToken, Token.content, shape]
  | opened => rfl

theorem Scanned.spelled
    (scanned : Scanned markup tokens still) : Scanned markup (tokens.map Token.spelled) still := by
  induction scanned with
  | nil => exact .nil
  | @text content tokens still occupied calm atoms rest ih =>
    refine .text (fun empty => occupied (spell_eq_nil empty)) ?_ ?_ ih
    · rw [written_spelled, rest.head?_spelled atoms]
      exact calm_spell calm
    · intro other later same
      cases rest with
      | nil => cases same
      | text => exact atoms _ _ rfl
      | closed | opened => cases same
  | closed known closes _ ih => exact .closed known closes ih
  | opened known remains => exact .opened known remains

/-- The closer of some atom. -/
def IsCloser (closer : Text) : Prop :=
  ∃ delimiter ∈ sqlDelimiters, delimiter.closer = closer

theorem isCloser_none : ∀ closer ∈ (none : Option Text), IsCloser closer := by
  simp

theorem mem_sqlDelimiters (known : delimiter ∈ delimiters markup) : delimiter ∈ sqlDelimiters := by
  cases markup with
  | false => exact known
  | true => exact mem_append_left _ known

/-- Only comments end with their line. -/
theorem opener_of_lineEnd
    (known : delimiter ∈ delimiters markup) (comment : delimiter.closer = lineEnd) :
    delimiter.opener = ['-', '-'] := by
  have each : ∀ delimiter ∈ sqlDelimiters, delimiter.closer = lineEnd →
      delimiter.opener = ['-', '-'] := by decide
  exact each delimiter (mem_sqlDelimiters known) comment

theorem Scanned.isCloser
    (scanned : Scanned markup tokens still) : ∀ closer ∈ still, IsCloser closer := by
  induction scanned with
  | nil => simp
  | text _ _ _ _ ih | closed _ _ _ ih => exact ih
  | opened known _ =>
    intro closer open_
    split at open_
    · cases open_
    · cases open_
      exact ⟨_, mem_sqlDelimiters known, rfl⟩

theorem isCloser_tokenize {pending : Option Text}
    (known : ∀ closer ∈ pending, IsCloser closer) (line : Text) :
    ∀ closer ∈ (tokenize markup pending line).2, IsCloser closer := by
  unfold tokenize
  split
  · exact (scanned_scan markup line).isCloser
  · split
    · exact known
    next body rest _ => exact (scanned_scan markup rest).isCloser

theorem IsCloser.ends {closer : Text} (known : IsCloser closer) (other : closer ≠ lineEnd) :
    closer ≠ [] ∧ ∀ c ∈ closer.getLast?, isBlank c = false := by
  obtain ⟨delimiter, member, rfl⟩ := known
  have each : ∀ delimiter ∈ sqlDelimiters, delimiter.closer ≠ lineEnd →
      delimiter.closer ≠ [] ∧ ∀ c ∈ delimiter.closer.getLast?, isBlank c = false := by decide
  exact each delimiter member other

/-- No closer ends with a blank, so no blank ends an atom. -/
theorem throughCloser?_append_of_isBlank (blank : isBlank c = true) {closer body : Text}
    (known : IsCloser closer) (remains : throughCloser? closer body = none) :
    throughCloser? closer (body ++ [c]) = none := by
  by_cases ends : closer = lineEnd
  · exact if_pos ends
  rw [throughCloser?_eq_none_iff ends, cut?_eq_none_iff] at remains ⊢
  intro lead tail same
  rcases eq_nil_or_concat tail with rfl | ⟨tail, d, rfl⟩
  · obtain ⟨occupied, solid⟩ := known.ends ends
    have last := solid c (by
      rw [← getLast?_append_of_ne_nil lead occupied, ← append_nil closer, ← same]
      exact getLast?_concat)
    rw [blank] at last
    cases last
  · rw [concat_eq_append, ← append_assoc, ← append_assoc] at same
    obtain ⟨same, -⟩ := append_inj' same rfl
    exact remains lead tail (by rw [same, append_assoc])

/-- Tokens before and after a blank is added to their line. -/
inductive Trailing (b : Char) : List Token → List Token → Prop
  | fresh : Trailing b [] [.text [b]]
  | text (content : Text) : Trailing b [.text content] [.text (content ++ [b])]
  | atom (content : Text) : Trailing b [.atom content] [.atom (content ++ [b])]
  | cons (token : Token) {tokens longer : List Token} (rest : Trailing b tokens longer) :
      Trailing b (token :: tokens) (token :: longer)

namespace Trailing

variable {longer : List Token}

theorem written_eq (trailing : Trailing b tokens longer) :
    written longer = written tokens ++ [b] := by
  induction trailing with
  | fresh => rfl
  | text content | atom content => simp [Token.content]
  | cons token _ ih => rw [written_cons, written_cons, ih, append_assoc]

theorem trimRight_eq (trailing : Trailing b tokens longer) (blank : isBlank b = true) :
    trimRight (longer.flatMap spellToken) = trimRight (tokens.flatMap spellToken) := by
  have tail : allBlank [b] = true := by simp [blank]
  have text (content : Text) : trimRight (spell (content ++ [b])) = trimRight (spell content) := by
    rcases spell_append_of_isBlank blank content with same | same
    · rw [same]
    · rw [same, trimRight_append_of_allBlank tail]
  induction trailing with
  | fresh =>
    rw [flatMap_singleton, flatMap_nil]
    exact text []
  | text content =>
    rw [flatMap_singleton, flatMap_singleton]
    exact text content
  | atom content =>
    rw [flatMap_singleton, flatMap_singleton]
    exact trimRight_append_of_allBlank tail content
  | cons token _ ih =>
    rw [flatMap_cons, flatMap_cons]
    exact trimRight_append_congr _ ih

theorem isText_head (trailing : Trailing b tokens longer) (occupied : tokens ≠ []) :
    (∃ content later, longer = .text content :: later) ↔
      ∃ content later, tokens = .text content :: later := by
  cases trailing with
  | fresh => exact absurd rfl occupied
  | text | atom | cons => simp

end Trailing

theorem Scanned.written_ne_nil {token : Token} (scanned : Scanned markup (token :: tokens) still) :
    written (token :: tokens) ≠ [] := by
  cases scanned with
  | text occupied => simp [Token.content, occupied]
  | closed known | opened known => simp [Token.content, opener_delimiters markup _ known]

theorem Scanned.append_of_isBlank
    (scanned : Scanned markup tokens still) (blank : isBlank b = true) :
    ∃ longer, Trailing b tokens longer ∧ Scanned markup longer still := by
  have plain := inert_of_isBlank blank
  have alone (next : Option Char) : Calm markup next [b] := ⟨begins_of_inert plain _, trivial⟩
  induction scanned with
  | nil =>
    exact ⟨_, .fresh, .text (cons_ne_nil _ _) (alone _) (by simp) .nil⟩
  | @text content tokens still occupied calm atoms rest ih =>
    cases tokens with
    | nil =>
      cases rest
      exact ⟨_, .text content, .text (by simp) (calm.append_inert plain) (by simp) .nil⟩
    | cons token tokens =>
      obtain ⟨longer, trailing, scanned⟩ := ih
      refine ⟨_, .cons _ trailing, .text occupied ?_ ?_ scanned⟩
      · rw [trailing.written_eq, head?_append_of_ne_nil _ rest.written_ne_nil]
        exact calm
      · intro other later same
        obtain ⟨other, later, same⟩ :=
          (trailing.isText_head (cons_ne_nil _ _)).mp ⟨other, later, same⟩
        exact atoms other later same
  | closed known closes _ ih =>
    obtain ⟨longer, trailing, scanned⟩ := ih
    exact ⟨_, .cons _ trailing, .closed known closes scanned⟩
  | opened known remains =>
    have closer : IsCloser _ := ⟨_, mem_sqlDelimiters known, rfl⟩
    refine ⟨_, .atom _, ?_⟩
    rw [append_assoc]
    exact .opened known (throughCloser?_append_of_isBlank blank closer remains)

section Lines

variable {line : Text}

variable {pending : Option Text}

theorem tokenize_append_of_isBlank (blank : isBlank b = true)
    (known : ∀ closer ∈ pending, IsCloser closer) (line : Text) :
    ∃ longer, Trailing b (tokenize markup pending line).1 longer ∧
      tokenize markup pending (line ++ [b]) = (longer, (tokenize markup pending line).2) := by
  have outside (text : Text) :
      ∃ longer, Trailing b (scan (delimiters markup) text).1 longer ∧
        scan (delimiters markup) (text ++ [b]) = (longer, (scan (delimiters markup) text).2) := by
    obtain ⟨longer, trailing, scanned⟩ := (scanned_scan markup text).append_of_isBlank blank
    refine ⟨longer, trailing, ?_⟩
    rw [← scanned.scan_eq, trailing.written_eq, written_scan]
  cases pending with
  | none => exact outside line
  | some closer =>
    cases closes : throughCloser? closer line with
    | none =>
      have remains := throughCloser?_append_of_isBlank blank (known closer rfl) closes
      simp only [tokenize, closes, remains]
      exact ⟨_, .atom line, rfl⟩
    | some cut =>
      obtain ⟨body, rest⟩ := cut
      obtain ⟨longer, trailing, same⟩ := outside rest
      have further : throughCloser? closer (line ++ [b]) = some (body, rest ++ [b]) := by
        rw [throughCloser?_eq_some closes, append_assoc]
        exact throughCloser?_append (throughCloser?_take closes) _
      simp only [tokenize, closes, further, same]
      exact ⟨_, .cons _ trailing, rfl⟩

theorem still_append_of_allBlank (blank : allBlank tail = true)
    (known : ∀ closer ∈ pending, IsCloser closer) (line : Text) :
    (tokenize markup pending (line ++ tail)).2 = (tokenize markup pending line).2 := by
  induction tail generalizing line with
  | nil => rw [append_nil]
  | cons b tail ih =>
    simp only [allBlank_cons, Bool.and_eq_true] at blank
    obtain ⟨longer, -, same⟩ :=
      @tokenize_append_of_isBlank markup b pending blank.1 known line
    rw [append_cons, ih blank.2, same]

theorem still_trimRight (known : ∀ closer ∈ pending, IsCloser closer) (line : Text) :
    (tokenize markup pending (trimRight line)).2 = (tokenize markup pending line).2 := by
  obtain ⟨tail, blank, whole⟩ := exists_trimRight line
  conv_rhs => rw [whole, still_append_of_allBlank blank known]

theorem scan_cons_of_isBlank (blank : isBlank b = true) (text : Text) :
    scan (delimiters markup) (b :: text) =
      (Token.consText b (scan (delimiters markup) text).1, (scan (delimiters markup) text).2) := by
  rw [scan, opening?_eq_none_iff.mpr (begins_of_inert (inert_of_isBlank blank) _)]

theorem still_trimLeft (line : Text) :
    (tokenize markup none (trimLeft line)).2 = (tokenize markup none line).2 := by
  refine apply_trimLeft (f := fun line => (tokenize markup none line).2)
    (fun c line blank => ?_) line
  show (scan (delimiters markup) (c :: line)).2 = (scan (delimiters markup) line).2
  rw [scan_cons_of_isBlank blank]

theorem still_of_allBlank (blank : allBlank line = true) :
    (tokenize markup none line).2 = none := by
  rw [← still_trimLeft, trimLeft_eq_nil_iff.mpr blank, tokenize, scan]

/-- What spelling does at the beginning of a line: blanks go before plain text. -/
def dropLead : List Token → Text → Text
  | .text _ :: _, spelled => trimLeft spelled
  | _, spelled => spelled

/-- The spelling of a line from its tokens. -/
def spellTokens (tokens : List Token) (still : Option Text) : Text :=
  let spelled := dropLead tokens (tokens.flatMap spellToken)
  if still.isNone then trimRight spelled else spelled

theorem spellLine_eq (pending : Option Text) (line : Text) :
    spellLine pending line =
      (spellTokens (tokenize false pending line).1 (tokenize false pending line).2,
        (tokenize false pending line).2) := by
  rw [spellLine]
  generalize tokenize false pending line = scanned
  obtain ⟨tokens, still⟩ := scanned
  rcases tokens with - | ⟨content | content, later⟩ <;> rfl

theorem spellTokens_of_trailing (blank : isBlank b = true) {longer : List Token}
    (trailing : Trailing b tokens longer) : spellTokens longer none = spellTokens tokens none := by
  have same := trailing.trimRight_eq blank
  have trimmed : trim (longer.flatMap spellToken) = trim (tokens.flatMap spellToken) := by
    rw [← trim_trimRight, same, trim_trimRight]
  cases trailing with
  | fresh | text => exact trimmed
  | atom => exact same
  | @cons token =>
    cases token with
    | text => exact trimmed
    | atom => exact same

theorem spellLine_append_of_allBlank (blank : allBlank tail = true)
    (known : ∀ closer ∈ pending, IsCloser closer)
    (complete : (tokenize false pending line).2 = none) :
    spellLine pending (line ++ tail) = spellLine pending line := by
  induction tail generalizing line with
  | nil => rw [append_nil]
  | cons b tail ih =>
    simp only [allBlank_cons, Bool.and_eq_true] at blank
    obtain ⟨longer, trailing, same⟩ :=
      @tokenize_append_of_isBlank false b pending blank.1 known line
    have still : (tokenize false pending (line ++ [b])).2 = none := by rw [same, complete]
    rw [append_cons, ih blank.2 still, spellLine_eq, spellLine_eq, same, complete,
      spellTokens_of_trailing blank.1 trailing]

theorem spellLine_trimRight (known : ∀ closer ∈ pending, IsCloser closer)
    (complete : (tokenize false pending line).2 = none) :
    spellLine pending (trimRight line) = spellLine pending line := by
  obtain ⟨tail, blank, whole⟩ := exists_trimRight line
  conv_rhs => rw [whole]
  rw [spellLine_append_of_allBlank blank known]
  rw [still_trimRight known, complete]

theorem Scanned.trimLeft_spelled {token : Token} (scanned : Scanned markup (token :: tokens) still)
    (atom : token = .atom content) :
    trimLeft ((token :: tokens).flatMap spellToken) = (token :: tokens).flatMap spellToken := by
  apply trimLeft_of_head
  cases scanned with
  | text => cases atom
  | closed known | opened known =>
    obtain ⟨c, more, shape, solid⟩ := exists_opener known
    simp [spellToken, shape, solid]

theorem trimLeft_pressSpace (blank : isBlank b = true) (text rest : Text) :
    trimLeft (pressSpace b text ++ rest) = trimLeft (text ++ rest) := by
  have lead : allBlank [b] = true := by simp [blank]
  rw [pressSpace]
  split
  · rfl
  · exact trimLeft_append_of_allBlank lead (text ++ rest)

theorem Scanned.spellTokens_consText (blank : isBlank b = true)
    (scanned : Scanned markup tokens still) :
    spellTokens (Token.consText b tokens) still = spellTokens tokens still := by
  have pressed (content : Text) (later : List Token) :
      trimLeft ((Token.text (b :: content) :: later).flatMap spellToken) =
        trimLeft ((Token.text content :: later).flatMap spellToken) := by
    rw [flatMap_cons, spellToken, spell_cons_of_isBlank blank]
    exact trimLeft_pressSpace blank _ _
  have same : dropLead (Token.consText b tokens) ((Token.consText b tokens).flatMap spellToken) =
      dropLead tokens (tokens.flatMap spellToken) := by
    cases tokens with
    | nil => exact pressed [] []
    | cons token later =>
      cases token with
      | text content => exact pressed content later
      | atom content =>
        exact (pressed [] (.atom content :: later)).trans (scanned.trimLeft_spelled rfl)
  rw [spellTokens, same]
  rfl

/-- Blanks at the beginning of a line outside atoms do not count. -/
theorem spellLine_trimLeft (line : Text) :
    spellLine none (trimLeft line) = spellLine none line := by
  refine apply_trimLeft (fun c line blank => ?_) line
  have scanned : tokenize false none (c :: line) = (_, _) := scan_cons_of_isBlank blank line
  rw [spellLine_eq none (c :: line), scanned,
    (scanned_scan false line).spellTokens_consText blank, spellLine_eq]
  rfl

/-- The spelled tokens of a line are the tokens of the spelled line. -/
theorem tokenize_spelled (pending : Option Text) (line : Text) :
    tokenize markup pending ((tokenize markup pending line).1.flatMap spellToken) =
      ((tokenize markup pending line).1.map Token.spelled, (tokenize markup pending line).2) := by
  have outside (text : Text) : scan (delimiters markup)
      ((scan (delimiters markup) text).1.flatMap spellToken) =
        ((scan (delimiters markup) text).1.map Token.spelled,
          (scan (delimiters markup) text).2) := by
    rw [← written_spelled]
    exact (scanned_scan markup text).spelled.scan_eq
  cases pending with
  | none => exact outside line
  | some closer =>
    cases closes : throughCloser? closer line with
    | none =>
      have whole : [Token.atom line].flatMap spellToken = line := append_nil _
      simp only [tokenize, closes, whole]
      rfl
    | some cut =>
      obtain ⟨body, rest⟩ := cut
      have again := throughCloser?_append (throughCloser?_take closes)
        ((scan (delimiters markup) rest).1.flatMap spellToken)
      simp only [tokenize, closes, flatMap_cons, spellToken, again, outside rest]
      rfl

theorem spellTokens_spelled (tokens : List Token) (still : Option Text) :
    spellTokens (tokens.map Token.spelled) still = spellTokens tokens still := by
  have spelled : (tokens.map Token.spelled).flatMap spellToken = tokens.flatMap spellToken := by
    rw [flatMap_map]
    exact congrArg (tokens.flatMap ·) (funext spellToken_spelled)
  have lead (text : Text) : dropLead (tokens.map Token.spelled) text = dropLead tokens text := by
    rcases tokens with - | ⟨content | content, later⟩ <;> rfl
  rw [spellTokens, spelled, lead]
  rfl

/-- A line that begins with plain text begins outside every atom. -/
theorem eq_none_of_tokenize {later : List Token}
    (tokens : (tokenize markup pending line).1 = .text content :: later) : pending = none := by
  cases pending with
  | none => rfl
  | some closer =>
    simp only [tokenize] at tokens
    split at tokens <;> cases tokens

theorem spellLine_spellLine (known : ∀ closer ∈ pending, IsCloser closer) (line : Text) :
    spellLine pending (spellLine pending line).1 = spellLine pending line := by
  have spelled : spellLine pending ((tokenize false pending line).1.flatMap spellToken) =
      spellLine pending line := by
    rw [spellLine_eq, tokenize_spelled, spellTokens_spelled, spellLine_eq]
  have led : spellLine pending (dropLead (tokenize false pending line).1
      ((tokenize false pending line).1.flatMap spellToken)) = spellLine pending line := by
    rw [dropLead.eq_def]
    split
    next tokens =>
      obtain rfl := eq_none_of_tokenize tokens
      rw [spellLine_trimLeft, spelled]
    · exact spelled
  have still := congrArg Prod.snd led
  rw [spellLine_eq, spellLine_eq pending line] at still
  conv_lhs => arg 2; rw [spellLine_eq]
  dsimp only [spellTokens]
  split
  next complete =>
    rw [spellLine_trimRight known, led]
    exact still.trans (Option.isNone_iff_eq_none.mp complete)
  · exact led

end Lines

end LookML.Sql
