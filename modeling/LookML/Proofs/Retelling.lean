import LookML.Proofs.Breaks
import LookML.Proofs.SpelledLines

/-!
# What the lines of a value say

The value of a segment and what it is laid out as are compared line by line, where blank lines
and the blanks around a line do not count.  The lines of an atom that goes over lines stay as
they are, as comments and markup do.  Any other line of SQL keeps its atoms and, around them, its
words: whole words that are keywords or make up a phrase are put in upper case, no other word
changes, and none grow together.
-/

namespace LookML

open Text Code List

namespace Text

variable {c : Char} {text : Text} {line : Text}

/-- The lines that are not blank, without the blanks around them. -/
def said (lines : List Text) : List Text :=
  (lines.map trim).filter (!·.isEmpty)

theorem said_append (first second : List Text) :
    said (first ++ second) = said first ++ said second := by
  rw [said, map_append, filter_append]
  rfl

theorem said_cons_of_blank (blank : allBlank line = true) (lines : List Text) :
    said (line :: lines) = said lines := by
  simp [said, trim_eq_nil_iff.mpr blank]

theorem said_cons_of_solid (solid : allBlank line = false) (lines : List Text) :
    said (line :: lines) = trim line :: said lines := by
  have occupied : trim line ≠ [] := by simp [trim_eq_nil_iff, solid]
  simp [said, occupied]

theorem said_cons_congr {other : Text} (same : trim other = trim line) (lines : List Text) :
    said (other :: lines) = said (line :: lines) := by
  rw [said, map_cons, same]
  rfl

theorem said_filter (lines : List Text) : said (lines.filter (!·.isEmpty)) = said lines := by
  induction lines with
  | nil => rfl
  | cons line lines ih =>
    cases line with
    | nil => exact ih.trans (said_cons_of_blank rfl lines).symm
    | cons c line =>
      rw [filter_cons_of_pos (by rfl), ← singleton_append, said_append, ih, ← said_append]
      rfl

theorem said_lines (text : Text) : said text.lines = said (splitBreaks text) := by
  by_cases empty : text = []
  · subst empty
    rfl
  · rw [lines_of_ne_nil empty]

theorem said_splitBreaks_cons (blank : isBlank c = true) (text : Text) :
    said (splitBreaks (c :: text)) = said (splitBreaks text) := by
  obtain ⟨line, lines, whole⟩ := exists_cons_of_ne_nil (splitBreaks_ne_nil text)
  by_cases feed : c = '\n'
  · rw [feed, splitBreaks_feed, said_cons_of_blank rfl]
  by_cases joins : c = '\r' ∧ text.head? = some '\n'
  · obtain ⟨rfl, head⟩ := joins
    obtain ⟨rest, rfl⟩ := head?_eq_some_iff.mp head
    rw [splitBreaks_feed, splitBreaks]
  · rw [splitBreaks_cons_of_inner feed (fun return_ head => joins ⟨return_, head⟩) whole, whole]
    have lead : allBlank [c] = true := by simp [blank]
    exact said_cons_congr (trim_append_of_allBlank lead line) lines

theorem said_splitBreaks_concat (blank : isBlank c = true) (text : Text) :
    said (splitBreaks (text ++ [c])) = said (splitBreaks text) := by
  obtain ⟨line, below, whole⟩ := exists_cons_of_ne_nil (splitBreaks_ne_nil text)
  induction below generalizing text line with
  | nil =>
    rcases exists_first_break whole with ⟨single, rfl, -⟩ | ⟨full, rest, -, -, -, none_⟩
    · rw [whole]
      by_cases feed : c = '\n'
      · rw [feed, splitBreaks_break single]
        exact said_cons_congr (trim_dropReturn text) [[]]
      · rw [splitBreaks_of_feedless (by simpa using ⟨single, Ne.symm feed⟩)]
        refine said_cons_congr ?_ []
        rw [← trim_trimRight, trimRight_append_of_allBlank (by simp [blank]), trim_trimRight]
    · exact absurd none_ (splitBreaks_ne_nil rest)
  | cons next below ih =>
    rcases exists_first_break whole with ⟨-, -, none_⟩ | ⟨full, rest, rfl, single, -, later⟩
    · cases none_
    · rw [append_assoc, cons_append, splitBreaks_break single, splitBreaks_break single,
        ← singleton_append, said_append, ih rest next later, ← said_append, singleton_append]

/-- Blanks around a text are none of its lines. -/
theorem said_lines_trim (text : Text) : said (trim text).lines = said text.lines := by
  have before : said (splitBreaks (trimLeft text)) = said (splitBreaks text) :=
    apply_trimLeft (f := fun text => said (splitBreaks text))
      (fun c text blank => said_splitBreaks_cons blank text) text
  have behind (tail : Text) (blank : allBlank tail = true) (text : Text) :
      said (splitBreaks (text ++ tail)) = said (splitBreaks text) := by
    induction tail generalizing text with
    | nil => rw [append_nil]
    | cons c tail ih =>
      simp only [allBlank_cons, Bool.and_eq_true] at blank
      rw [append_cons, ih blank.2, said_splitBreaks_concat blank.1]
  obtain ⟨tail, blank, whole⟩ := exists_trimRight (trimLeft text)
  rw [said_lines, said_lines, ← before, trim, ← behind tail blank (trimRight _), ← whole]

theorem said_joinLines {lines : List Text} (feedless : ∀ line ∈ lines, '\n' ∉ line) :
    said (joinLines lines).lines = said lines := by
  rcases eq_nil_or_concat lines with rfl | ⟨front, last, rfl⟩
  · rfl
  · rw [concat_eq_append] at *
    rw [said_lines, splitBreaks_joinLines feedless, said_append, said_append]
    simp [said, Function.comp_def, trim_dropReturn]

end Text

namespace Segment

/-- What the lines of a segment say, from its value to its terminator. -/
def parts (segment : Segment) : List Text :=
  stripTerminator segment.value :: (segment.body.map Line.text
    ++ segment.closing.toList.map fun line => stripTerminator line.text)

theorem said_text {segment : Segment} (plain : ∀ part ∈ segment.parts, Unbroken part) :
    said segment.text.lines = said segment.parts := by
  have stripped : said (segment.body.map Line.stripped) = said (segment.body.map Line.text) := by
    simp [said, Line.stripped, Function.comp_def]
  simp only [parts, forall_mem_cons, forall_mem_append, forall_mem_map] at plain
  obtain ⟨head, body, tail⟩ := plain
  rw [text, said_lines_trim, ← joinLines, said_joinLines, said_append, said_append, said_filter,
    said_filter, stripped, parts, append_assoc, ← said_append, ← said_append]
  · rfl
  · simp only [forall_mem_append, forall_mem_map]
    refine ⟨⟨fun part member => ?_, fun line member => (body line member).trim.not_mem⟩,
      fun part member => ?_⟩
    · rw [mem_singleton.mp (mem_of_mem_filter member)]
      exact head.not_mem
    · obtain ⟨line, isLine, rfl⟩ := mem_map.mp (mem_of_mem_filter member)
      exact (tail line isLine).not_mem

end Segment

namespace Sql

variable {markup : Bool} {b : Char} {text line tail : Text}

/-- A text with its words spelled, spaced in another way: it has their characters, and no two are
next to each other that blanks separate there. -/
def Reworded (text image : Text) : Prop :=
  ∃ worded, Worded text worded ∧ squash image = squash worded ∧ Loosened worded image

theorem reworded_nil : Reworded [] [] :=
  ⟨[], .nil, rfl, .nil⟩

theorem reworded_spell (text : Text) : Reworded text (spell text) := by
  refine ⟨spellKeywords text, worded_spellKeywords text, ?_, ?_⟩
  · rw [spell_eq, squash_tidy]
  · have spaced := loosens_of_spaced (spaced_spaceOperators (spellKeywords text))
    exact (spaced.trans (loosens_squeezeSpaces _)).loosened

theorem Reworded.of_solids {middle image : Text} (reworded : Reworded text middle)
    (same : solids image = solids middle) : Reworded text image := by
  obtain ⟨worded, words, squashed, loosened⟩ := reworded
  refine ⟨worded, words, ?_, ?_⟩
  · rw [← squashed, ← map_fst_solidsFrom true, ← map_fst_solidsFrom true middle]
    exact congrArg (map Prod.fst) same
  · rw [Loosened, same]
    exact loosened

/-- No two tokens of plain text stand next to each other, so each stretch is spelled as a whole. -/
theorem Scanned.reworded {tokens : List Token} {still : Option Text}
    (scanned : Scanned markup tokens still) :
    Forall₂ Reworded (stretches tokens) (stretches (tokens.map Token.spelled)) := by
  induction scanned with
  | nil => exact .cons reworded_nil .nil
  | @text content tokens still _ _ atoms rest ih =>
    have alone : Reworded (content ++ []) (spell content ++ []) := by
      rw [append_nil, append_nil]
      exact reworded_spell content
    rcases rest.eq_nil_or_atom atoms with rfl | ⟨c, inner, later, rfl, -⟩
    · exact .cons alone .nil
    · cases ih with
      | cons _ others => exact .cons alone others
  | closed _ _ _ ih => exact .cons reworded_nil ih
  | opened => exact .cons reworded_nil (.cons reworded_nil .nil)

/-- A line of SQL and how it is spelled: it says the same, and has the same words between its
atoms. -/
structure Respelled (line image : Text) : Prop where
  same : SaysSame none line image
  words : List.Forall₂ Reworded (stretches (tokenize false none line).1)
    (stretches (tokenize false none image).1)

theorem respelled_spellLine (line : Text) : Respelled line (spellLine none line).1 := by
  refine ⟨.of_spelling isCloser_none line, ?_⟩
  rw [tokenize_spellLine isCloser_none]
  have spelled : Forall₂ Reworded (stretches (tokenize false none line).1) _ :=
    (scanned_scan false line).reworded
  exact forall₂_settle (fun _ _ _ reworded same => reworded.of_solids same) spelled _

section Trimming

theorem trim_spellOut (line : Text) : trim (spellLine none line).1 = trim (spellOut none line) := by
  have lead : trim (dropLead (tokenize false none line).1 (spellOut none line)) =
      trim (spellOut none line) := by
    rw [dropLead.eq_def]
    split
    · exact trim_trimLeft _
    · rfl
  rw [spellLine_eq]
  dsimp only [spellTokens]
  split
  · rw [trim_trimRight]
    exact lead
  · exact lead

/-- Around a line outside atoms blanks do not count, also when the line leaves an atom open. -/
theorem trim_spellLine (text : Text) :
    trim (spellLine none text).1 = (spellLine none (trim text)).1 := by
  have trimmed : Trimmed (spellLine none (trim text)).1 :=
    trimmed_spellLine (trimmed_trim text).last
  obtain ⟨tail, blank, whole⟩ := exists_trimRight (trimLeft text)
  rw [← spellLine_trimLeft text, ← trimmed.trim_eq, trim_spellOut, trim_spellOut,
    ← trim_trimRight (spellOut none (trimLeft text)), whole, trimRight_spellOut isCloser_none blank,
    trim_trimRight, ← trim]

theorem still_cons_of_pending {closer : Text} (known : IsCloser closer) (blank : isBlank b = true)
    (line : Text) :
    (tokenize markup (some closer) (b :: line)).2 = (tokenize markup (some closer) line).2 := by
  obtain ⟨delimiter, member, rfl⟩ := known
  have each : ∀ delimiter ∈ sqlDelimiters, delimiter.closer ≠ lineEnd →
      delimiter.closer ≠ [] ∧ ∀ c ∈ delimiter.closer.head?, isBlank c = false := by
    decide
  by_cases ends : delimiter.closer = lineEnd
  · simp only [tokenize, throughCloser?, if_pos ends]
  · obtain ⟨occupied, solid⟩ := each delimiter member ends
    have apart : after? delimiter.closer (b :: line) = none := by
      obtain ⟨c, more, shape⟩ := exists_cons_of_ne_nil occupied
      rw [shape] at solid ⊢
      have other : c ≠ b := by
        rintro rfl
        rw [solid c rfl] at blank
        cases blank
      simp [after?, other]
    simp only [tokenize, throughCloser?, if_neg ends, cut?, apart]
    cases cut? delimiter.closer line <;> rfl

/-- The atom that a line leaves open does not depend on the blanks around it. -/
theorem still_trim {pending : Option Text} (known : ∀ closer ∈ pending, IsCloser closer)
    (line : Text) : (tokenize markup pending (trim line)).2 = (tokenize markup pending line).2 := by
  rw [trim, still_trimRight known]
  cases pending with
  | none => exact still_trimLeft line
  | some closer =>
    exact apply_trimLeft (f := fun line => (tokenize markup (some closer) line).2)
      (fun c line blank => still_cons_of_pending (known closer rfl) blank line) line

end Trimming

namespace Style

variable {style : Style} {pending : Option Text} {sources texts : List Text}

/-- A line outside atoms and how a style lays it out: markup stays as it is. -/
def KeepsLine (style : Style) (line image : Text) : Prop :=
  if style.markup then image = line else Respelled line image

/-- Lines and what they are laid out as, given the closer of an atom open before them.  What an
atom goes over stays as it is. -/
inductive Retold (style : Style) : Option Text → List Text → List Text → Prop
  | nil {pending : Option Text} : Retold style pending [] []
  | inside {closer line : Text} {lines images : List Text}
      (later : Retold style (tokenize style.markup (some closer) line).2 lines images) :
      Retold style (some closer) (line :: lines) (line :: images)
  | comment {line : Text} {lines images : List Text} (comment : isCommentLine line = true)
      (later : Retold style none lines images) : Retold style none (line :: lines) (line :: images)
  | code {line image : Text} {lines images : List Text} (keeps : style.KeepsLine line image)
      (later : Retold style (tokenize style.markup none line).2 lines images) :
      Retold style none (line :: lines) (image :: images)

/-- A value and what it is laid out as. -/
def Retells (style : Style) (value again : Text) : Prop :=
  style.Retold none (said value.lines) (said again.lines)

theorem keepsLine_restyle (style : Style) (text : Text) :
    style.KeepsLine (trim text) (trim (style.restyle none text).1) := by
  cases markup : style.markup with
  | false =>
    rw [KeepsLine, if_neg (by simp [markup]), restyle_of_sql markup, trim_spellLine]
    exact respelled_spellLine (trim text)
  | true =>
    rw [KeepsLine, if_pos markup]
    exact trim_restyle_of_markup markup text

theorem retold_restyle {text : Text}
    (later : style.Retold (style.restyle none text).2 (said sources) (said texts)) :
    style.Retold none (said (text :: sources)) (said ((style.restyle none text).1 :: texts)) := by
  have keeps := style.keeps_restyle none text
  rw [still_restyle] at later
  cases solid : allBlank text with
  | true =>
    rw [still_of_allBlank solid] at later
    rw [said_cons_of_blank solid, said_cons_of_blank (keeps.allBlank_eq.trans solid)]
    exact later
  | false =>
    rw [said_cons_of_solid solid, said_cons_of_solid (keeps.allBlank_eq.trans solid)]
    rw [← still_trim isCloser_none] at later
    exact .code (style.keepsLine_restyle text) later

theorem retold_bodyLine (blank : allBlank style.unit = true) {depth : Nat} {text : Text}
    (known : ∀ closer ∈ pending, IsCloser closer)
    (later : style.Retold (style.bodyLine depth pending text).2 (said sources) (said texts)) :
    style.Retold pending (said (text :: sources))
      (said ((style.bodyLine depth pending text).1 :: texts)) := by
  have keeps := style.keeps_bodyLine blank depth pending text
  cases solid : allBlank text with
  | true =>
    have still : (style.bodyLine depth pending text).2 = pending := by
      cases pending with
      | none => rw [bodyLine_of_allBlank depth solid]
      | some closer =>
        have empty : (style.bodyLine depth (some closer) []).2 = some closer := by
          rw [bodyLine_nil known]
        rw [bodyLine_of_pending, still_restyle] at empty ⊢
        rw [← still_trim known, trim_eq_nil_iff.mpr solid, empty]
    rw [still] at later
    rw [said_cons_of_blank solid, said_cons_of_blank (keeps.allBlank_eq.trans solid)]
    exact later
  | false =>
    cases pending with
    | some closer =>
      rw [bodyLine_of_pending, still_restyle, ← still_trim known] at later
      rw [bodyLine_of_pending, said_cons_of_solid solid, said_cons_of_solid solid]
      exact .inside later
    | none =>
      cases comment : isCommentLine text with
      | true =>
        have same : trim (style.indent (depth + 1) ++ trim text) = trim text := by
          rw [trim_append_of_allBlank (allBlank_indent blank _), trim_trim]
        rw [bodyLine_of_comment depth solid comment] at later ⊢
        rw [said_cons_congr same, said_cons_of_solid solid, said_cons_of_solid solid]
        exact .comment (isCommentLine_trim comment) later
      | false =>
        rw [bodyLine_of_code depth solid comment, restyle_trimLeft] at later ⊢
        rw [said_cons_congr (trim_append_of_allBlank (allBlank_indent blank _) _)]
        exact retold_restyle later

end Style

end Sql

end LookML
