import LookML.Proofs.Atoms
import LookML.Proofs.Separation

/-!
# What a spelled line says

The tokens of a spelled line are those of the line with their plain text spelled, less the
blanks at the ends of the line.  So a spelled line says the same: it has the same atoms, and
between them the same characters up to case, apart from each other as they were.  Spelling it
again changes nothing.
-/

namespace LookML.Sql

open Text List

/-- The spelling of lines one after another, each with the closer of the atom still open at its
end. -/
def spellLines : Option Text → List Text → List (Text × Option Text)
  | _, [] => []
  | pending, line :: lines =>
    let spelled := spellLine pending line
    spelled :: spellLines spelled.2 lines

theorem isCloser_spellLine {pending : Option Text} (known : ∀ closer ∈ pending, IsCloser closer)
    (line : Text) : ∀ closer ∈ (spellLine pending line).2, IsCloser closer := by
  rw [spellLine_eq]
  exact isCloser_tokenize known line

/-- Spelled lines stay as they are, whatever atom is open before them. -/
theorem spellLines_spellLines {pending : Option Text}
    (known : ∀ closer ∈ pending, IsCloser closer) :
    (∀ line, spellLine pending (spellLine pending line).1 = spellLine pending line) ∧
      ∀ lines, spellLines pending ((spellLines pending lines).map Prod.fst) =
        spellLines pending lines := by
  constructor
  · intro line
    exact spellLine_spellLine known line
  · intro lines
    induction lines generalizing pending with
    | nil => rfl
    | cons line lines ih =>
      rw [spellLines, List.map_cons, spellLines, spellLine_spellLine known,
        ih (isCloser_spellLine known line)]

theorem isCloser_quote : ∀ closer ∈ some ['\''], IsCloser closer := by
  intro closer same
  cases same
  exact ⟨⟨['\''], ['\'']⟩, by decide, rfl⟩

/-- The lines begin inside a quoted text. -/
theorem spellLines_spellLines_quoted :
    (∀ closer ∈ some ['\''], IsCloser closer) ∧
      spellLines (some ['\'']) ["it''s' and  a=1 ".toList, "group   by 'b  c".toList] =
        [("it''s' AND a = 1".toList, none), ("GROUP BY 'b  c".toList, some ['\''])] ∧
      spellLines (some ['\'']) ["it''s' AND a = 1".toList, "GROUP BY 'b  c".toList] =
        [("it''s' AND a = 1".toList, none), ("GROUP BY 'b  c".toList, some ['\''])] := by
  have spelled : spellLines (some ['\'']) ["it''s' and  a=1 ".toList, "group   by 'b  c".toList] =
      [("it''s' AND a = 1".toList, none), ("GROUP BY 'b  c".toList, some ['\''])] := by
    decide +kernel
  have again := (spellLines_spellLines isCloser_quote).2
    ["it''s' and  a=1 ".toList, "group   by 'b  c".toList]
  rw [spelled] at again
  exact ⟨isCloser_quote, spelled, again⟩

section Trimmed

/-- The token of a plain text, if it is not empty. -/
def Token.plain (content : Text) : List Token :=
  if content.isEmpty then [] else [.text content]

@[simp] theorem written_plain (content : Text) : written (Token.plain content) = content := by
  rw [Token.plain]
  split
  next empty => rw [List.isEmpty_iff.mp empty, written_nil]
  next => simp [Token.content]

/-- Tokens without the blanks of plain text at their beginning. -/
def dropLeadBlanks : List Token → List Token
  | .text content :: tokens => Token.plain (trimLeft content) ++ tokens
  | tokens => tokens

/-- Tokens without the blanks at their end. -/
def dropEndBlanks : List Token → List Token
  | [] => []
  | [.text content] => Token.plain (trimRight content)
  | [.atom content] => [.atom (trimRight content)]
  | token :: next :: tokens => token :: dropEndBlanks (next :: tokens)

variable {markup : Bool} {tokens : List Token} {still : Option Text}

theorem written_append (first second : List Token) :
    written (first ++ second) = written first ++ written second :=
  flatMap_append

/-- Behind plain text nothing follows, or an atom, which begins with no blank. -/
theorem Scanned.eq_nil_or_atom (scanned : Scanned markup tokens still)
    (atoms : ∀ other later, tokens ≠ .text other :: later) :
    tokens = [] ∨
      ∃ c content later, tokens = .atom (c :: content) :: later ∧ isBlank c = false := by
  cases scanned with
  | nil => exact .inl rfl
  | text => exact absurd rfl (atoms _ _)
  | @closed delimiter body later _ known _ _ =>
    obtain ⟨c, more, shape, solid⟩ := exists_opener known
    exact .inr ⟨c, more ++ body, later, by rw [shape, cons_append], solid⟩
  | @opened delimiter body known _ =>
    obtain ⟨c, more, shape, solid⟩ := exists_opener known
    exact .inr ⟨c, more ++ body, [], by rw [shape, cons_append], solid⟩

theorem Scanned.head_solid (scanned : Scanned markup tokens still)
    (atoms : ∀ other later, tokens ≠ .text other :: later) :
    ∀ c ∈ (written tokens).head?, isBlank c = false := by
  rcases scanned.eq_nil_or_atom atoms with rfl | ⟨c, content, later, rfl, solid⟩
  · exact fun _ head => nomatch head
  · intro d head
    cases head
    exact solid

theorem trimLeft_append_of_head {rest : Text} (solid : ∀ c ∈ rest.head?, isBlank c = false)
    (lead : Text) : trimLeft (lead ++ rest) = trimLeft lead ++ rest := by
  cases rest with
  | nil => rw [append_nil, append_nil]
  | cons c rest => exact trimLeft_append_of_solid (solid c rfl) lead rest

theorem trimRight_append_of_solid {rest : Text} (solid : allBlank rest = false) (lead : Text) :
    trimRight (lead ++ rest) = lead ++ trimRight rest := by
  obtain ⟨tail, blank, whole⟩ := exists_trimRight rest
  have occupied : trimRight rest ≠ [] := by
    intro empty
    rw [trimRight_eq_nil_iff.mp empty] at solid
    cases solid
  conv_lhs => rw [whole, ← append_assoc, trimRight_append_of_allBlank blank]
  apply trimRight_of_last
  intro c last
  rw [getLast?_append_of_ne_nil _ occupied] at last
  exact last_trimRight rest c last

theorem Scanned.led (scanned : Scanned markup tokens still) :
    Scanned markup (dropLeadBlanks tokens) still ∧
      written (dropLeadBlanks tokens) = dropLead tokens (written tokens) := by
  cases scanned with
  | nil => exact ⟨.nil, rfl⟩
  | @text content tokens _ _ calm atoms rest =>
    obtain ⟨lead, -, whole⟩ := exists_trimLeft content
    constructor
    · rw [dropLeadBlanks, Token.plain]
      split
      · exact rest
      next filled =>
        rw [whole] at calm
        exact .text (fun empty => filled (List.isEmpty_iff.mpr empty)) calm.behind atoms rest
    · rw [dropLeadBlanks, written_append, written_plain, dropLead, written_cons, Token.content,
        trimLeft_append_of_head (rest.head_solid atoms)]
  | closed known closes rest => exact ⟨.closed known closes rest, rfl⟩
  | opened known remains => exact ⟨.opened known remains, rfl⟩

/-- An atom that is closed ends with no blank. -/
theorem solid_of_closes {delimiter : Delimiter} {body : Text}
    (known : delimiter ∈ delimiters markup)
    (closes : throughCloser? delimiter.closer body = some (body, [])) :
    ∀ c ∈ (delimiter.opener ++ body).getLast?, isBlank c = false := by
  obtain ⟨occupied, solid⟩ := solid_of_throughCloser? ⟨_, mem_sqlDelimiters known, rfl⟩ closes
  rw [getLast?_append_of_ne_nil _ occupied]
  exact solid

theorem dropEndBlanks_atom {content : Text} (solid : ∀ c ∈ content.getLast?, isBlank c = false)
    (tokens : List Token) :
    dropEndBlanks (.atom content :: tokens) = .atom content :: dropEndBlanks tokens := by
  cases tokens with
  | nil =>
    have trimmed := trimRight_of_last solid
    simp only [dropEndBlanks, trimmed]
  | cons token tokens => rw [dropEndBlanks]

/-- Dropping blanks at the end leaves the first character, which is none. -/
theorem exists_dropEndBlanks {c : Char} (solid : isBlank c = false) (content : Text)
    (tokens : List Token) :
    ∃ kept later, dropEndBlanks (.atom (c :: content) :: tokens) = .atom (c :: kept) :: later := by
  cases tokens with
  | nil =>
    have first : ∀ d ∈ [c].getLast?, isBlank d = false := by
      intro d last
      cases last
      exact solid
    have trimmed := trimRight_append_of_last first content
    exact ⟨trimRight content, [], congrArg (fun text => [Token.atom text]) trimmed⟩
  | cons token tokens => exact ⟨content, _, by rw [dropEndBlanks]⟩

/-- A comment keeps its opener without the blanks behind it. -/
theorem trimRight_opener {delimiter : Delimiter} (known : delimiter ∈ delimiters markup)
    (body : Text) :
    trimRight (delimiter.opener ++ body) = delimiter.opener ++ trimRight body := by
  have each : ∀ delimiter ∈ sqlDelimiters, ∀ c ∈ delimiter.opener.getLast?, isBlank c = false := by
    decide
  exact trimRight_append_of_last (each delimiter (mem_sqlDelimiters known)) body

theorem Scanned.ended (scanned : Scanned markup tokens none) :
    Scanned markup (dropEndBlanks tokens) none ∧
      written (dropEndBlanks tokens) = trimRight (written tokens) := by
  generalize complete : (none : Option Text) = still at scanned
  induction scanned with
  | nil => exact ⟨.nil, rfl⟩
  | @text content tokens still occupied calm atoms rest ih =>
    subst complete
    rcases rest.eq_nil_or_atom atoms with rfl | ⟨c, inner, later, rfl, solid⟩
    · obtain ⟨tail, -, whole⟩ := exists_trimRight content
      rw [dropEndBlanks]
      constructor
      · rw [Token.plain]
        split
        · exact .nil
        next filled =>
          rw [whole] at calm
          have occupied := mt List.isEmpty_iff.mpr filled
          exact .text occupied calm.before (by simp) .nil
      · simp [Token.content]
    · obtain ⟨scanned, ends⟩ := ih rfl
      obtain ⟨kept, others, shape⟩ := exists_dropEndBlanks solid inner later
      rw [dropEndBlanks]
      constructor
      · refine .text occupied ?_ ?_ scanned
        · rw [shape]
          exact calm
        · rw [shape]
          simp
      · have filled : allBlank (written (.atom (c :: inner) :: later)) = false := by
          simp [Token.content, solid]
        rw [written_cons, ends, written_cons (.text content), Token.content,
          trimRight_append_of_solid filled]
  | @closed delimiter body tokens still known closes rest ih =>
    obtain ⟨scanned, ends⟩ := ih complete
    have solid := solid_of_closes known closes
    rw [dropEndBlanks_atom solid]
    constructor
    · exact .closed known closes scanned
    · rw [written_cons, written_cons, Token.content, trimRight_append_of_last solid, ends]
  | @opened delimiter body known remains =>
    have comment : delimiter.closer = lineEnd := by
      by_contra other
      rw [if_neg other] at complete
      cases complete
    have trimmed := trimRight_opener known body
    have never : throughCloser? delimiter.closer (trimRight body) = none := by
      rw [throughCloser?, if_pos comment]
    have opened := opened known never
    rw [if_pos comment] at opened ⊢
    rw [dropEndBlanks, trimmed]
    exact ⟨opened, by simp [Token.content, trimmed]⟩

/-- Tokens without the blanks at the ends of their line, unless an atom is open there. -/
def settle (still : Option Text) (tokens : List Token) : List Token :=
  if still.isNone then dropEndBlanks (dropLeadBlanks tokens) else dropLeadBlanks tokens

/-- A spelled text without the blanks at the ends of its line, given the tokens of the line and
the closer of the atom still open at its end. -/
def dropEnds (still : Option Text) (tokens : List Token) (text : Text) : Text :=
  if still.isNone then trimRight (dropLead tokens text) else dropLead tokens text

theorem Scanned.settled (scanned : Scanned markup tokens still) :
    Scanned markup (settle still tokens) still ∧
      written (settle still tokens) = dropEnds still tokens (written tokens) := by
  obtain ⟨led, begins⟩ := scanned.led
  unfold settle dropEnds
  cases still with
  | none =>
    obtain ⟨ended, ends⟩ := led.ended
    rw [begins] at ends
    exact ⟨ended, ends⟩
  | some closer => exact ⟨led, begins⟩

end Trimmed

/-- Tokens as a line is cut into them, given the closer of an atom open before it, with the
closer of the atom still open at its end. -/
inductive Tokenized (markup : Bool) : Option Text → List Token → Option Text → Prop
  | outside {tokens : List Token} {still : Option Text} (scanned : Scanned markup tokens still) :
      Tokenized markup none tokens still
  | closed {closer body : Text} {tokens : List Token} {still : Option Text}
      (closes : throughCloser? closer body = some (body, []))
      (scanned : Scanned markup tokens still) :
      Tokenized markup (some closer) (.atom body :: tokens) still
  | inside {closer line : Text} (remains : throughCloser? closer line = none) :
      Tokenized markup (some closer) [.atom line] (some closer)

theorem tokenized_tokenize (markup : Bool) (pending : Option Text) (line : Text) :
    Tokenized markup pending (tokenize markup pending line).1 (tokenize markup pending line).2 := by
  cases pending with
  | none => exact .outside (scanned_scan markup line)
  | some closer =>
    cases closes : throughCloser? closer line with
    | none =>
      simp only [tokenize, closes]
      exact .inside closes
    | some cut =>
      simp only [tokenize, closes]
      exact .closed (throughCloser?_take closes) (scanned_scan markup cut.2)

namespace Tokenized

variable {markup : Bool} {pending still : Option Text} {tokens : List Token}

theorem tokenize_eq (tokenized : Tokenized markup pending tokens still) :
    tokenize markup pending (written tokens) = (tokens, still) := by
  cases tokenized with
  | outside scanned => exact scanned.scan_eq
  | closed closes scanned =>
    rw [written_cons, Token.content]
    simp only [tokenize, throughCloser?_append closes, scanned.scan_eq]
  | inside remains =>
    rw [written_cons, Token.content, written_nil, append_nil]
    simp only [tokenize, remains]

theorem spelled (tokenized : Tokenized markup pending tokens still) :
    Tokenized markup pending (tokens.map Token.spelled) still := by
  cases tokenized with
  | outside scanned => exact .outside scanned.spelled
  | closed closes scanned => exact .closed closes scanned.spelled
  | inside remains => exact .inside remains

theorem settled (known : ∀ closer ∈ pending, IsCloser closer)
    (tokenized : Tokenized markup pending tokens still) :
    Tokenized markup pending (settle still tokens) still ∧
      written (settle still tokens) = dropEnds still tokens (written tokens) := by
  cases tokenized with
  | outside scanned =>
    obtain ⟨settled, whole⟩ := scanned.settled
    exact ⟨.outside settled, whole⟩
  | inside remains => exact ⟨.inside remains, rfl⟩
  | @closed closer body tokens still closes scanned =>
    cases still with
    | some closer => exact ⟨.closed closes scanned, rfl⟩
    | none =>
      obtain ⟨-, solid⟩ := solid_of_throughCloser? (known closer rfl) closes
      obtain ⟨ended, ends⟩ := scanned.ended
      have settled : settle none (.atom body :: tokens) = .atom body :: dropEndBlanks tokens :=
        dropEndBlanks_atom solid tokens
      rw [settled]
      constructor
      · exact .closed closes ended
      · rw [written_cons, written_cons, Token.content, ends, ← trimRight_append_of_last solid]
        rfl

end Tokenized

theorem dropLead_spelled (tokens : List Token) (text : Text) :
    dropLead (tokens.map Token.spelled) text = dropLead tokens text := by
  rcases tokens with - | ⟨content | content, later⟩ <;> rfl

/-- The tokens of a spelled line. -/
theorem tokenize_spellLine {pending : Option Text} (known : ∀ closer ∈ pending, IsCloser closer)
    (line : Text) :
    tokenize false pending (spellLine pending line).1 =
      (settle (tokenize false pending line).2 ((tokenize false pending line).1.map Token.spelled),
        (tokenize false pending line).2) := by
  obtain ⟨settled, whole⟩ := (tokenized_tokenize false pending line).spelled.settled known
  rw [← settled.tokenize_eq, whole, written_spelled, dropEnds, dropLead_spelled, spellLine_eq]
  rfl

section Atoms

/-- The text of an atom. -/
def Token.atom? : Token → Option Text
  | .text _ => none
  | .atom content => some content

/-- The texts of the atoms among tokens. -/
def atomTexts (tokens : List Token) : List Text :=
  tokens.filterMap Token.atom?

/-- A comment without the blanks behind it. -/
def clip (content : Text) : Text :=
  if ['-', '-'].isPrefixOf content then trimRight content else content

/-- Tokens where a comment at their end has no blanks behind it. -/
def clipComment : List Token → List Token
  | [] => []
  | [.atom content] => [.atom (clip content)]
  | token :: tokens => token :: clipComment tokens

variable {markup : Bool} {tokens : List Token} {still : Option Text}

@[simp] theorem atomTexts_text (content : Text) (tokens : List Token) :
    atomTexts (.text content :: tokens) = atomTexts tokens :=
  rfl

@[simp] theorem atomTexts_atom (content : Text) (tokens : List Token) :
    atomTexts (.atom content :: tokens) = content :: atomTexts tokens :=
  rfl

theorem atomTexts_spelled (tokens : List Token) :
    atomTexts (tokens.map Token.spelled) = atomTexts tokens := by
  induction tokens with
  | nil => rfl
  | cons token tokens ih =>
    cases token with
    | text content => exact ih
    | atom content => exact congrArg (content :: ·) ih

theorem atomTexts_dropLeadBlanks (tokens : List Token) :
    atomTexts (dropLeadBlanks tokens) = atomTexts tokens := by
  rcases tokens with - | ⟨content | content, later⟩
  · rfl
  · rw [dropLeadBlanks, Token.plain]
    split <;> rfl
  · rfl

@[simp] theorem clipComment_text (content : Text) (tokens : List Token) :
    clipComment (.text content :: tokens) = .text content :: clipComment tokens := by
  cases tokens <;> rfl

theorem clipComment_atom {content : Text} (clipped : clip content = content) (tokens : List Token) :
    clipComment (.atom content :: tokens) = .atom content :: clipComment tokens := by
  cases tokens with
  | nil => simp only [clipComment, clipped]
  | cons token tokens => rfl

theorem clip_of_solid {content : Text} (solid : ∀ c ∈ content.getLast?, isBlank c = false) :
    clip content = content := by
  rw [clip, trimRight_of_last solid, ite_self]

theorem atomTexts_clipComment_spelled (tokens : List Token) :
    atomTexts (clipComment (tokens.map Token.spelled)) = atomTexts (clipComment tokens) := by
  induction tokens with
  | nil => rfl
  | cons token tokens ih =>
    cases token with
    | text content =>
      rw [map_cons, Token.spelled, clipComment_text, clipComment_text]
      exact ih
    | atom content =>
      cases tokens with
      | nil => rfl
      | cons next tokens => exact congrArg (content :: ·) ih

theorem atomTexts_clipComment_dropLeadBlanks (tokens : List Token) :
    atomTexts (clipComment (dropLeadBlanks tokens)) = atomTexts (clipComment tokens) := by
  rcases tokens with - | ⟨content | content, later⟩
  · rfl
  · rw [dropLeadBlanks, Token.plain]
    split <;> simp
  · rfl

/-- Of the atoms only a comment at the end can lose blanks there. -/
theorem Scanned.atomTexts_dropEndBlanks (scanned : Scanned markup tokens none) :
    atomTexts (dropEndBlanks tokens) = atomTexts (clipComment tokens) := by
  generalize complete : (none : Option Text) = still at scanned
  induction scanned with
  | nil => rfl
  | @text content tokens still _ _ _ _ ih =>
    rw [clipComment_text, atomTexts_text, ← ih complete]
    cases tokens with
    | nil =>
      have plain : atomTexts (Token.plain (trimRight content)) = [] := by
        rw [Token.plain]
        split <;> rfl
      exact plain
    | cons token tokens => rfl
  | @closed delimiter body tokens still known closes _ ih =>
    have solid := solid_of_closes known closes
    rw [dropEndBlanks_atom solid, clipComment_atom (clip_of_solid solid), atomTexts_atom,
      atomTexts_atom, ih complete]
  | @opened delimiter body known _ =>
    have comment : delimiter.closer = lineEnd := by
      by_contra other
      rw [if_neg other] at complete
      cases complete
    simp [dropEndBlanks, clipComment, clip, opener_of_lineEnd known comment]

theorem Tokenized.atomTexts_settle {pending : Option Text}
    (known : ∀ closer ∈ pending, IsCloser closer)
    (tokenized : Tokenized markup pending tokens still) :
    atomTexts (settle still tokens) =
      atomTexts (if still.isNone then clipComment tokens else tokens) := by
  unfold settle
  cases still with
  | some closer => exact atomTexts_dropLeadBlanks tokens
  | none =>
    cases tokenized with
    | outside scanned =>
      simp only [Option.isNone_none, if_true]
      rw [scanned.led.1.atomTexts_dropEndBlanks, atomTexts_clipComment_dropLeadBlanks]
    | @closed closer body tokens _ closes scanned =>
      obtain ⟨-, solid⟩ := solid_of_throughCloser? (known closer rfl) closes
      simp only [Option.isNone_none, if_true, dropLeadBlanks]
      rw [dropEndBlanks_atom solid, clipComment_atom (clip_of_solid solid), atomTexts_atom,
        atomTexts_atom, scanned.atomTexts_dropEndBlanks]

end Atoms

section Stretches

/-- The plain text before, between and behind the atoms among tokens, empty where there is
none. -/
def stretches : List Token → List Text
  | [] => [[]]
  | .text content :: tokens => (stretches tokens).modifyHead (content ++ ·)
  | .atom _ :: tokens => [] :: stretches tokens

theorem forall₂_modifyHead {α : Type} {r : α → α → Prop} {f g : α → α} {first second : List α}
    (lifts : ∀ a b, r a b → r (f a) (g b)) (related : Forall₂ r first second) :
    Forall₂ r (first.modifyHead f) (second.modifyHead g) := by
  cases related with
  | nil => exact .nil
  | cons here later => exact .cons (lifts _ _ here) later

theorem loosens_stretches (tokens : List Token) :
    Forall₂ Loosens (stretches tokens) (stretches (tokens.map Token.spelled)) := by
  induction tokens with
  | nil => exact .cons .nil .nil
  | cons token tokens ih =>
    cases token with
    | text content =>
      apply forall₂_modifyHead _ ih
      intro text result loosens
      exact (loosens_spell content).append loosens
    | atom content => exact .cons .nil ih

theorem stretches_plain (content : Text) (tokens : List Token) :
    stretches (Token.plain content ++ tokens) = (stretches tokens).modifyHead (content ++ ·) := by
  rw [Token.plain]
  split
  next empty =>
    rw [List.isEmpty_iff.mp empty, nil_append]
    cases stretches tokens <;> rfl
  next => rfl

theorem solids_dropLeadBlanks (tokens : List Token) :
    Forall₂ (fun text result => solids result = solids text) (stretches tokens)
      (stretches (dropLeadBlanks tokens)) := by
  have same (texts : List Text) :
      Forall₂ (fun text result => solids result = solids text) texts texts :=
    forall₂_same.mpr fun _ _ => rfl
  rcases tokens with - | ⟨content | content, later⟩
  · exact same _
  · rw [dropLeadBlanks, stretches_plain, stretches]
    cases stretches later with
    | nil => exact .nil
    | cons stretch others => exact .cons (solids_trimLeft_append content stretch) (same others)
  · exact same _

/-- Blanks at the end of the last stretch are all that is dropped. -/
theorem solids_dropEndBlanks (tokens : List Token) :
    Forall₂ (fun text result => ∀ apart, solidsFrom apart result = solidsFrom apart text)
      (stretches tokens) (stretches (dropEndBlanks tokens)) := by
  fun_induction dropEndBlanks tokens with
  | case1 => exact .cons (fun _ => rfl) .nil
  | case2 content =>
    have plain := stretches_plain (trimRight content) []
    rw [append_nil] at plain
    rw [plain]
    refine .cons (fun apart => ?_) .nil
    dsimp only
    rw [append_nil, append_nil, solidsFrom_trimRight]
  | case3 content => exact .cons (fun _ => rfl) (.cons (fun _ => rfl) .nil)
  | case4 token next tokens ih =>
    cases token with
    | text content =>
      apply forall₂_modifyHead _ ih
      intro text result same apart
      rw [solidsFrom_append, solidsFrom_append, same]
    | atom content => exact .cons (fun _ => rfl) ih

/-- Blanks at the ends of a line do not matter where texts are compared by their words. -/
theorem forall₂_settle {r : Text → Text → Prop} {texts : List Text} {tokens : List Token}
    (lifts : ∀ text middle result, r text middle → solids result = solids middle → r text result)
    (related : Forall₂ r texts (stretches tokens)) (still : Option Text) :
    Forall₂ r texts (stretches (settle still tokens)) := by
  have led := forall₂_comp lifts related (solids_dropLeadBlanks _)
  rw [settle]
  split
  · refine forall₂_comp ?_ led (solids_dropEndBlanks _)
    intro text middle result relates same
    exact lifts text middle result relates (same true)
  · exact led

theorem loosened_settle (still : Option Text) (tokens : List Token) :
    Forall₂ Loosened (stretches tokens)
      (stretches (settle still (tokens.map Token.spelled))) := by
  have spelled : Forall₂ Loosened (stretches tokens) (stretches (tokens.map Token.spelled)) :=
    (loosens_stretches tokens).imp fun _ _ => Loosens.loosened
  refine forall₂_settle (fun text middle result loosened same => ?_) spelled still
  rw [Loosened, same]
  exact loosened

end Stretches

/-- A line that says the same as another one, given the closer of an atom open before both: it
leaves the same atom open, holds the same atoms, where a comment at the end may have lost the
blanks behind it, and the same plain text around them, blanks and case apart; and no two
characters that blanks separate in the one are next to each other in the other. -/
structure SaysSame (pending : Option Text) (line result : Text) : Prop where
  still : (tokenize false pending result).2 = (tokenize false pending line).2
  atoms : atomTexts (tokenize false pending result).1 =
    atomTexts
      (if (tokenize false pending line).2.isNone then clipComment (tokenize false pending line).1
        else (tokenize false pending line).1)
  texts : List.Forall₂
    (fun text image => upper (squash image) = upper (squash text) ∧ Loosened text image)
    (stretches (tokenize false pending line).1) (stretches (tokenize false pending result).1)
  apart : Loosened line result

theorem SaysSame.of_spelling {pending : Option Text}
    (known : ∀ closer ∈ pending, IsCloser closer) (line : Text) :
    SaysSame pending line (spellLine pending line).1 := by
  have tokenized := tokenized_tokenize false pending line
  refine ⟨?_, ?_, ?_, loosened_spellLine pending line⟩
  · rw [tokenize_spellLine known]
  · rw [tokenize_spellLine known, tokenized.spelled.atomTexts_settle known]
    split
    · exact atomTexts_clipComment_spelled _
    · exact atomTexts_spelled _
  · rw [tokenize_spellLine known]
    apply (loosened_settle _ _).imp
    intro text image loosened
    exact ⟨upper_eq_of_recased loosened.recased, loosened⟩

/-- Spelling a line keeps what it says. -/
theorem saysSame_spellLine {pending : Option Text} (known : ∀ closer ∈ pending, IsCloser closer)
    (line : Text) :
    (spellLine pending line).2 = (tokenize false pending line).2 ∧
      SaysSame pending line (spellLine pending line).1 :=
  ⟨by rw [spellLine_eq], .of_spelling known line⟩

/-- The line begins inside a quoted text and ends in a comment. -/
theorem saysSame_spellLine_commented :
    (∀ closer ∈ some ['\''], IsCloser closer) ∧
      spellLine (some ['\'']) "it''s'  sum(x)>=1 group\t by -- Total  ".toList =
        ("it''s' SUM(x) >= 1 GROUP BY -- Total".toList, none) ∧
      SaysSame (some ['\'']) "it''s'  sum(x)>=1 group\t by -- Total  ".toList
        "it''s' SUM(x) >= 1 GROUP BY -- Total".toList := by
  have spelled : spellLine (some ['\'']) "it''s'  sum(x)>=1 group\t by -- Total  ".toList =
      ("it''s' SUM(x) >= 1 GROUP BY -- Total".toList, none) := by
    decide +kernel
  have same :=
    (saysSame_spellLine isCloser_quote "it''s'  sum(x)>=1 group\t by -- Total  ".toList).2
  rw [spelled] at same
  exact ⟨isCloser_quote, spelled, same⟩

end LookML.Sql
