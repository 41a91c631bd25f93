import LookML.Proofs.Scanning
import LookML.Proofs.SegmentLines

/-!
# Segments laid out once more

A line of a segment that has been laid out keeps its text when it is laid out again, and
it ends the segment only if it did so before.
-/

namespace LookML

open Text Code List

namespace Sql

variable {text line : Text} {c : Char}

/-- The spelling of a line before the blanks at its ends are dropped. -/
def spellOut (pending : Option Text) (line : Text) : Text :=
  (tokenize false pending line).1.flatMap spellToken

theorem trimRight_spellOut {pending : Option Text} (known : ∀ closer ∈ pending, IsCloser closer)
    {tail : Text} (blank : allBlank tail = true) (line : Text) :
    trimRight (spellOut pending (line ++ tail)) = trimRight (spellOut pending line) := by
  induction tail generalizing line with
  | nil => rw [append_nil]
  | cons b tail ih =>
    simp only [allBlank_cons, Bool.and_eq_true] at blank
    obtain ⟨longer, trailing, same⟩ :=
      @tokenize_append_of_isBlank false b pending blank.1 known line
    rw [append_cons, ih blank.2, spellOut, same, trailing.trimRight_eq blank.1]
    rfl

/-- Spelling brings no two semicolons together. -/
theorem endsSegment_of_loosened {image : Text} (loosened : Loosened line image)
    (ended : endsSegment (trimRight image) = true) : endsSegment (trimRight line) = true := by
  have letter : ';' ∉ caseForms := by decide
  obtain ⟨front, same⟩ := isSuffixOf_iff_suffix.mp ended
  have spelled : solids image = solids front ++ [(';', apartAfter true front), (';', false)] := by
    rw [← solids_trimRight, ← same, solids, solidsFrom_append]
    rfl
  rw [Loosened, spelled, ← solids_trimRight line] at loosened
  have whole := take_append_drop (solids front).length (solids (trimRight line))
  have ends := forall₂_drop_append _ _ _ loosened
  obtain ⟨⟨c, before⟩, _, first, later, rest⟩ := forall₂_cons_right_iff.mp ends
  obtain ⟨⟨d, between⟩, _, second, last, rfl⟩ := forall₂_cons_right_iff.mp later
  cases last
  obtain rfl : c = ';' := first.1.eq_of_not_mem letter
  obtain rfl : d = ';' := second.1.eq_of_not_mem letter
  obtain rfl : between = false := Bool.eq_false_iff.mpr fun apart => by cases second.2 apart
  rw [rest, append_cons] at whole
  obtain ⟨lead, trimmed, front, joined⟩ :=
    exists_of_solids_concat (last_trimRight line) whole.symm
  obtain ⟨lead, rfl, -⟩ := exists_of_solids_concat (last_of_apartAfter joined) front
  rw [trimmed]
  exact isSuffixOf_iff_suffix.mpr ⟨lead, by simp [terminator]⟩

/-- An atom that stays open reaches to the end of its line. -/
theorem Scanned.last_spelled {markup : Bool} {tokens : List Token} {closer : Text}
    (scanned : Scanned markup tokens (some closer)) :
    (tokens.flatMap spellToken).getLast? = (written tokens).getLast? := by
  generalize open_ : some closer = still at scanned
  induction scanned with
  | nil => cases open_
  | @text content tokens still occupied _ atoms rest ih =>
    rw [flatMap_cons, written_cons, getLast?_append, getLast?_append, ih open_]
    cases tokens with
    | nil =>
      cases rest
      cases open_
    | cons token tokens =>
      have occupied := rest.written_ne_nil
      rw [← getLast?_isSome, Option.isSome_iff_exists] at occupied
      obtain ⟨c, last⟩ := occupied
      rw [last, Option.some_or, Option.some_or]
  | @closed delimiter body tokens still known _ rest ih =>
    rw [flatMap_cons, written_cons, getLast?_append, getLast?_append, ih open_]
    rfl
  | opened known _ => rfl

theorem mem_head?_of_trimRight (head : c ∈ (trimRight text).head?) : c ∈ text.head? := by
  obtain ⟨tail, -, whole⟩ := exists_trimRight text
  rw [whole]
  exact mem_head?_append_of_mem_head? head

theorem mem_getLast?_of_trimLeft (last : c ∈ (trimLeft text).getLast?) : c ∈ text.getLast? := by
  obtain ⟨lead, -, whole⟩ := exists_trimLeft text
  rw [whole]
  exact mem_getLast?_append_of_mem_getLast? last

theorem head_dropLead (line : Text) :
    ∀ c ∈ (dropLead (tokenize false none line).1 (spellOut none line)).head?,
      isBlank c = false := by
  have scanned := scanned_scan false line
  rw [dropLead.eq_def]
  split
  · exact head_trimLeft _
  next notText =>
    cases tokens : (tokenize false none line).1 with
    | nil => simp [spellOut, tokens]
    | cons token later =>
      cases token with
      | text content => exact absurd tokens (notText content later)
      | atom content =>
        have atom : (scan (delimiters false) line).1 = .atom content :: later := tokens
        rw [atom] at scanned
        rw [spellOut, tokens, ← scanned.trimLeft_spelled rfl]
        exact head_trimLeft _

theorem head_spellLine (line : Text) :
    ∀ c ∈ (spellLine none line).1.head?, isBlank c = false := by
  have head := head_dropLead line
  rw [spellLine_eq]
  dsimp only [spellTokens]
  split
  · exact fun c first => head c (mem_head?_of_trimRight first)
  · exact head

/-- The spelling of a line outside atoms that ends with no blank has no blanks at its
ends. -/
theorem trimmed_spellLine (solid : ∀ c ∈ line.getLast?, isBlank c = false) :
    Trimmed (spellLine none line).1 := by
  refine ⟨head_spellLine line, ?_⟩
  rw [spellLine_eq]
  dsimp only [spellTokens]
  split
  · exact last_trimRight _
  next open_ =>
    intro c last
    apply solid c
    rw [Option.isNone_iff_eq_none] at open_
    obtain ⟨closer, still⟩ := Option.ne_none_iff_exists'.mp open_
    have scanned : Scanned false (scan (delimiters false) line).1 (some closer) :=
      still ▸ scanned_scan false line
    have spelled := scanned.last_spelled
    rw [written_scan] at spelled
    have unled : c ∈ ((scan (delimiters false) line).1.flatMap spellToken).getLast? := by
      rw [dropLead.eq_def] at last
      split at last
      · exact mem_getLast?_of_trimLeft last
      · exact last
    rwa [spelled] at unled

theorem endsSegment_trim (text : Text) :
    endsSegment (trim text) = endsSegment (trimRight text) := by
  rw [Bool.eq_iff_iff, endsSegment, endsSegment, isSuffixOf_iff_suffix,
    isSuffixOf_iff_suffix, ← trim_trimRight text]
  constructor
  · intro ended
    obtain ⟨tail, -, whole⟩ := exists_trimRight (trimLeft (trimRight text))
    obtain ⟨lead, -, trimmed⟩ := exists_trimLeft (trimRight text)
    have last : trimRight (trimLeft (trimRight text)) = trimLeft (trimRight text) :=
      trimRight_of_last fun c last => last_trimRight text c (mem_getLast?_of_trimLeft last)
    rw [trim, last] at ended
    rw [trimmed]
    exact ended.trans (suffix_append _ _)
  · intro ended
    obtain ⟨front, same⟩ := ended
    have cut : trimLeft (trimRight text) = trimLeft front ++ terminator := by
      rw [← same]
      exact trimLeft_append_of_solid rfl front [';']
    rw [trim, cut, trimRight_of_last]
    · exact suffix_append _ _
    · exact last_terminator _

namespace Style

variable {style : Style} {pending : Option Text}

theorem restyle_of_markup (markup : style.markup = true) (text : Text) :
    style.restyle none text =
      (if (tokenize true none text).2.isNone then trim text else trimLeft text,
        (tokenize true none text).2) := by
  simp only [restyle, markup, if_true, Option.isSome_none, Bool.false_eq_true, if_false]
  split <;> rfl

theorem restyle_of_sql (sql : style.markup = false) (pending : Option Text) (text : Text) :
    style.restyle pending text = spellLine pending text := by
  simp [restyle, sql]

theorem still_restyle (style : Style) (pending : Option Text) (text : Text) :
    (style.restyle pending text).2 = (tokenize style.markup pending text).2 := by
  cases markup : style.markup with
  | false => rw [restyle_of_sql markup, spellLine_eq]
  | true =>
    simp only [restyle, markup, if_true]
    split
    · rfl
    · split <;> rfl

theorem isCloser_restyle (known : ∀ closer ∈ pending, IsCloser closer) (text : Text) :
    ∀ closer ∈ (style.restyle pending text).2, IsCloser closer := by
  rw [still_restyle]
  exact isCloser_tokenize known text

theorem restyle_restyle (text : Text) :
    style.restyle none (style.restyle none text).1 = style.restyle none text := by
  cases markup : style.markup with
  | false =>
    rw [restyle_of_sql markup, restyle_of_sql markup]
    exact spellLine_spellLine isCloser_none text
  | true =>
    have still : (tokenize true none (trimLeft text)).2 = _ := still_trimLeft text
    have trimmed : (tokenize true none (trimRight (trimLeft text))).2 = _ :=
      still_trimRight isCloser_none (trimLeft text)
    rw [restyle_of_markup markup, restyle_of_markup markup]
    dsimp only
    split
    next complete =>
      rw [trim, trimmed, still, complete, ← trim, trim_trim]
      rfl
    next open_ =>
      rw [still, if_neg open_, trimLeft_trimLeft]

theorem trimmed_restyle (solid : ∀ c ∈ text.getLast?, isBlank c = false) :
    Trimmed (style.restyle none text).1 := by
  cases markup : style.markup with
  | false =>
    rw [restyle_of_sql markup]
    exact trimmed_spellLine solid
  | true =>
    rw [restyle_of_markup markup]
    dsimp only
    split
    · exact trimmed_trim text
    · exact ⟨head_trimLeft text, fun c last => solid c (mem_getLast?_of_trimLeft last)⟩

theorem trim_restyle_of_markup (markup : style.markup = true) (text : Text) :
    trim (style.restyle none text).1 = trim text := by
  rw [restyle_of_markup markup]
  dsimp only
  split
  · exact trim_trim text
  · exact trim_trimLeft text

theorem head_restyle (text : Text) :
    ∀ c ∈ (style.restyle none text).1.head?, isBlank c = false := by
  cases markup : style.markup with
  | false =>
    rw [restyle_of_sql markup]
    exact head_spellLine text
  | true =>
    rw [restyle_of_markup markup]
    dsimp only
    split
    · exact (trimmed_trim text).head
    · exact head_trimLeft text

theorem endsSegment_restyle (open_ : endsSegment (trim text) = false) :
    endsSegment (trim (style.restyle none text).1) = false := by
  cases markup : style.markup with
  | false =>
    rw [endsSegment_trim] at open_
    rw [restyle_of_sql markup, endsSegment_trim]
    apply Bool.eq_false_iff.mpr
    intro ended
    rw [endsSegment_of_loosened (loosened_spellLine none text) ended] at open_
    cases open_
  | true => rw [trim_restyle_of_markup markup, open_]

end Style

/-- A mark of comments at the beginning of a line. -/
def IsCommentMark (mark : Text) : Prop :=
  mark = ['-', '-'] ∨ mark = ['#']

theorem isCommentLine_iff (solid : ∀ c ∈ line.head?, isBlank c = false) :
    isCommentLine line = true ↔ ∃ mark, IsCommentMark mark ∧ mark <+: line := by
  rw [isCommentLine, trimLeft_of_head solid]
  simp only [Bool.or_eq_true, isPrefixOf_iff_prefix, IsCommentMark]
  constructor
  · intro marked
    rcases marked with dashes | hash
    · exact ⟨_, .inl rfl, dashes⟩
    · exact ⟨_, .inr rfl, hash⟩
  · intro marked
    obtain ⟨mark, rfl | rfl, leads⟩ := marked
    · exact .inl leads
    · exact .inr leads

theorem isCommentLine_spellLine (solid : ∀ c ∈ line.head?, isBlank c = false)
    (code : isCommentLine line = false) : isCommentLine (spellLine none line).1 = false := by
  apply Bool.eq_false_iff.mpr
  intro comment
  obtain ⟨mark, isMark, rest, same⟩ := (isCommentLine_iff (head_spellLine line)).mp comment
  have marks : ∀ c ∈ mark, isBlank c = false ∧ c ∉ caseForms := by
    rcases isMark with rfl | rfl <;> decide
  have loosened := loosened_spellLine none line
  rw [← same] at loosened
  have leads : mark <+: line := prefix_of_staysApart marks (fun _ => solid) loosened
  rw [(isCommentLine_iff solid).mpr ⟨mark, isMark, leads⟩] at code
  cases code

theorem Style.isCommentLine_restyle {style : Style}
    (solid : ∀ c ∈ text.head?, isBlank c = false) (code : isCommentLine text = false) :
    isCommentLine (style.restyle none text).1 = false := by
  cases markup : style.markup with
  | false =>
    rw [restyle_of_sql markup]
    exact isCommentLine_spellLine solid code
  | true =>
    have leads : (style.restyle none text).1 <+: text := by
      rw [restyle_of_markup markup, trim, trimLeft_of_head solid]
      dsimp only
      split
      · obtain ⟨tail, -, whole⟩ := exists_trimRight text
        exact ⟨tail, whole.symm⟩
      · exact prefix_refl text
    apply Bool.eq_false_iff.mpr
    intro comment
    obtain ⟨mark, isMark, marked⟩ := (isCommentLine_iff (style.head_restyle text)).mp comment
    have again := (isCommentLine_iff solid).mpr ⟨mark, isMark, marked.trans leads⟩
    rw [code] at again
    cases again

namespace Style

variable {style : Style} {pending : Option Text}

theorem bodyLine_of_pending (depth : Nat) (closer text : Text) :
    style.bodyLine depth (some closer) text = (text, (style.restyle (some closer) text).2) :=
  rfl

theorem bodyLine_of_allBlank (depth : Nat) (empty : allBlank text = true) :
    style.bodyLine depth none text = ([], none) := by
  simp [bodyLine, empty]

theorem bodyLine_of_comment (depth : Nat) (solid : allBlank text = false)
    (comment : isCommentLine text = true) :
    style.bodyLine depth none text = (style.indent (depth + 1) ++ trim text, none) := by
  simp [bodyLine, solid, comment]

/-- How far a line of code is indented, beyond the depth of its segment. -/
def step (style : Style) (text : Text) : Nat :=
  if style.markup || isPrimaryClause text then 1 else 2

theorem bodyLine_of_code (depth : Nat) (solid : allBlank text = false)
    (code : isCommentLine text = false) :
    style.bodyLine depth none text =
      (style.indent (depth + style.step (style.restyle none (trimLeft text)).1)
          ++ (style.restyle none (trimLeft text)).1,
        (style.restyle none (trimLeft text)).2) := by
  simp only [bodyLine, solid, code, step, Option.isSome_none, Bool.false_eq_true, if_false]
  split <;> rfl

theorem isCommentLine_append {lead : Text} (blank : allBlank lead = true) (text : Text) :
    isCommentLine (lead ++ text) = isCommentLine text := by
  rw [isCommentLine, isCommentLine, trimLeft_append_of_allBlank blank]

theorem isCommentLine_trimLeft (text : Text) :
    isCommentLine (trimLeft text) = isCommentLine text := by
  rw [isCommentLine, isCommentLine, trimLeft_trimLeft]

theorem isCommentLine_trim (comment : isCommentLine text = true) :
    isCommentLine (trim text) = true := by
  rw [← isCommentLine_trimLeft, isCommentLine_iff (head_trimLeft text)] at comment
  obtain ⟨mark, isMark, rest, same⟩ := comment
  rw [isCommentLine_iff (trimmed_trim text).head]
  refine ⟨mark, isMark, trimRight rest, ?_⟩
  have solid : ∀ c ∈ mark.getLast?, isBlank c = false := by
    rcases isMark with rfl | rfl <;> decide
  rw [trim, ← same, trimRight_append_of_last solid]

theorem allBlank_trim (text : Text) : allBlank (trim text) = allBlank text := by
  rw [Bool.eq_iff_iff, ← squash_eq_nil_iff, squash_trim, squash_eq_nil_iff]

/-- A line of a body that has been laid out stays as it is. -/
theorem bodyLine_bodyLine (blank : allBlank style.unit = true) (depth : Nat)
    (pending : Option Text) (text : Text) :
    style.bodyLine depth pending (style.bodyLine depth pending text).1 =
      style.bodyLine depth pending text := by
  cases pending with
  | some closer => rfl
  | none =>
    have indent (steps : Nat) := allBlank_indent blank (depth + steps)
    cases empty : allBlank text with
    | true => rw [bodyLine_of_allBlank depth empty, bodyLine_of_allBlank depth allBlank_nil]
    | false =>
      cases comment : isCommentLine text with
      | true =>
        have solid : allBlank (style.indent (depth + 1) ++ trim text) = false := by
          rw [allBlank_append, allBlank_trim, empty, Bool.and_false]
        have again : isCommentLine (style.indent (depth + 1) ++ trim text) = true := by
          rw [isCommentLine_append (indent 1), isCommentLine_trim comment]
        rw [bodyLine_of_comment depth empty comment, bodyLine_of_comment depth solid again,
          trim_append_of_allBlank (indent 1), trim_trim]
      | false =>
        rw [bodyLine_of_code depth empty comment]
        dsimp only
        have keeps := style.keeps_restyle none (trimLeft text)
        have head := style.head_restyle (trimLeft text)
        have plain := style.isCommentLine_restyle (head_trimLeft text)
          ((isCommentLine_trimLeft text).trans comment)
        have again := style.restyle_restyle (trimLeft text)
        have filled : allBlank (style.restyle none (trimLeft text)).1 = false := by
          rw [keeps.allBlank_eq, ← empty]
          exact Bool.eq_iff_iff.mpr
            (by rw [← squash_eq_nil_iff, squash_trimLeft, squash_eq_nil_iff])
        generalize style.restyle none (trimLeft text) = restyled at *
        obtain ⟨result, still⟩ := restyled
        dsimp only at *
        have solid (steps : Nat) : allBlank (style.indent (depth + steps) ++ result) = false := by
          rw [allBlank_append, filled, Bool.and_false]
        have code (steps : Nat) :
            isCommentLine (style.indent (depth + steps) ++ result) = false := by
          rw [isCommentLine_append (indent steps), plain]
        rw [bodyLine_of_code depth (solid _) (code _),
          trimLeft_append_of_allBlank (indent _), trimLeft_of_head head, again]

/-- An empty line changes nothing about the atom that is open. -/
theorem bodyLine_nil (known : ∀ closer ∈ pending, IsCloser closer) (depth : Nat) :
    style.bodyLine depth pending [] = ([], pending) := by
  cases pending with
  | none => exact bodyLine_of_allBlank depth allBlank_nil
  | some closer =>
    have open_ (markup : Bool) : tokenize markup (some closer) [] = ([.atom []], some closer) := by
      have remains : throughCloser? closer [] = none := by
        obtain ⟨delimiter, member, rfl⟩ := known closer rfl
        have each : ∀ delimiter ∈ sqlDelimiters, throughCloser? delimiter.closer [] = none := by
          decide
        exact each delimiter member
      simp [tokenize, remains]
    rw [bodyLine_of_pending]
    cases markup : style.markup with
    | false => rw [restyle_of_sql markup, spellLine_eq, open_]
    | true => simp [restyle, markup, open_]

theorem isCloser_bodyLine (known : ∀ closer ∈ pending, IsCloser closer)
    (depth : Nat) (text : Text) :
    ∀ closer ∈ (style.bodyLine depth pending text).2, IsCloser closer := by
  cases pending with
  | some closer => exact isCloser_restyle known text
  | none =>
    cases empty : allBlank text with
    | true => rwa [bodyLine_of_allBlank depth empty]
    | false =>
      cases comment : isCommentLine text with
      | true => rwa [bodyLine_of_comment depth empty comment]
      | false =>
        rw [bodyLine_of_code depth empty comment]
        exact isCloser_restyle isCloser_none _

/-- A line that does not end a segment is not laid out as one that does. -/
theorem endsSegment_bodyLine (blank : allBlank style.unit = true) (depth : Nat)
    (pending : Option Text) (open_ : endsSegment (trim text) = false) :
    endsSegment (trim (style.bodyLine depth pending text).1) = false := by
  cases pending with
  | some closer => exact open_
  | none =>
    have indent (steps : Nat) := allBlank_indent blank (depth + steps)
    cases empty : allBlank text with
    | true =>
      rw [bodyLine_of_allBlank depth empty]
      rfl
    | false =>
      cases comment : isCommentLine text with
      | true =>
        rw [bodyLine_of_comment depth empty comment, trim_append_of_allBlank (indent 1),
          trim_trim, open_]
      | false =>
        rw [bodyLine_of_code depth empty comment, trim_append_of_allBlank (indent _)]
        apply endsSegment_restyle
        rwa [trim_trimLeft]

end Style

end Sql

end LookML
