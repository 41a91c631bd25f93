import LookML.Proofs.Blank
import LookML.Proofs.Rewriting
import LookML.Sql.Spelling
import Mathlib.Data.List.Forall2

/-!
# Keywords as whole words

The recogniser of keywords looks at one position at a time.  Seen from the words of
a text, it upper-cases a word that is a keyword, and a pair of words that is a
keyword of two words and has nothing but blanks between them.
-/

namespace LookML

open List

variable {c : Char} {word text rest : Text}

namespace Text

/-- The letters of the alphabet in lower case. -/
def lowerLetters : List Char :=
  "abcdefghijklmnopqrstuvwxyz".toList

/-- Every character that matches some letter. -/
def caseForms : List Char :=
  lowerLetters ++ lowerLetters.map Char.toUpper ++ ['ſ', '\u212A', 'İ', 'ı']

theorem mem_caseForms {letter : Char} (lower : letter ∈ lowerLetters)
    (matched : matchesLetter letter c = true) : c ∈ caseForms := by
  simp only [matchesLetter, Bool.or_eq_true, Bool.and_eq_true, beq_iff_eq] at matched
  rcases matched with (((same | ⟨-, rfl⟩) | ⟨-, rfl⟩) | ⟨-, rfl | rfl⟩)
  · have ascii : ∀ n < 128, (Char.ofNat n).toLower ∈ lowerLetters → Char.ofNat n ∈ caseForms := by
      decide +kernel
    by_cases small : c.toNat < 128
    · simpa using ascii c.toNat small (by simpa [same] using lower)
    · have large : c.toLower = c := by
        unfold Char.toLower
        split
        next upper =>
          simp only [UInt32.le_iff_toNat_le] at upper
          simp at upper
          omega
        next => rfl
      rw [← large, same]
      exact mem_append_left _ (mem_append_left _ lower)
  all_goals decide

theorem isWord_of_mem_caseForms : ∀ c ∈ caseForms, isWord c = true := by
  decide +kernel

/-- Upper case keeps a letter a letter, and is final. -/
theorem upperChar_of_mem_caseForms :
    ∀ c ∈ caseForms, ∃ u ∈ caseForms, upperChar c = [u] ∧ upperChar u = [u] ∧
      ∀ letter ∈ lowerLetters, matchesLetter letter u = matchesLetter letter c := by
  decide +kernel

/-- A text that is a word, letter by letter and in any case. -/
def Spells (word text : Text) : Prop :=
  List.Forall₂ (fun letter c => matchesLetter letter c = true) word text

theorem afterWord?_eq_some_iff :
    afterWord? word text = some rest ↔ ∃ taken, text = taken ++ rest ∧ Spells word taken := by
  induction word generalizing text with
  | nil =>
    constructor
    · intro found
      exact ⟨[], Option.some.inj found, .nil⟩
    · rintro ⟨taken, rfl, spells⟩
      rw [forall₂_nil_left_iff.mp spells]
      rfl
  | cons letter word ih =>
    cases text with
    | nil => simp [afterWord?, Spells, forall₂_cons_left_iff]
    | cons c text =>
      simp only [afterWord?, Option.ite_none_right_eq_some, ih]
      constructor
      · rintro ⟨matched, taken, rfl, spells⟩
        exact ⟨c :: taken, rfl, .cons matched spells⟩
      · rintro ⟨taken, same, whole⟩
        obtain ⟨d, later, matched, spells, rfl⟩ := forall₂_cons_left_iff.mp whole
        obtain ⟨rfl, rfl⟩ := cons.inj same
        exact ⟨matched, later, rfl, spells⟩

theorem Spells.afterWord? (spells : Spells word text) (rest : Text) :
    afterWord? word (text ++ rest) = some rest :=
  afterWord?_eq_some_iff.mpr ⟨text, rfl, spells⟩

namespace Spells

variable (lower : ∀ letter ∈ word, letter ∈ lowerLetters)
include lower

theorem mem_caseForms (spells : Spells word text) : ∀ c ∈ text, c ∈ caseForms := by
  induction spells with
  | nil => exact fun _ member => absurd member not_mem_nil
  | cons matched _ ih =>
    obtain ⟨here, later⟩ := forall_mem_cons.mp lower
    exact forall_mem_cons.mpr ⟨Text.mem_caseForms here matched, ih later⟩

theorem upper (spells : Spells word text) : Spells word (upper text) := by
  induction spells with
  | nil => exact .nil
  | @cons letter c word text matched _ ih =>
    have known := lower letter mem_cons_self
    obtain ⟨u, -, upperChar, -, same⟩ :=
      upperChar_of_mem_caseForms c (Text.mem_caseForms known matched)
    simp only [Text.upper, flatMap_cons, upperChar, singleton_append]
    exact .cons ((same letter known).trans matched)
      (ih (forall_mem_cons.mp lower).2)

end Spells

theorem upper_upper (letters : ∀ c ∈ text, c ∈ caseForms) : upper (upper text) = upper text := by
  induction text with
  | nil => rfl
  | cons c text ih =>
    obtain ⟨u, -, first, second, -⟩ := upperChar_of_mem_caseForms c (letters c mem_cons_self)
    have rest := ih (forall_mem_cons.mp letters).2
    simp only [upper] at rest
    simp only [upper, flatMap_cons, first, singleton_append, second, rest]

theorem mem_caseForms_upper (letters : ∀ c ∈ text, c ∈ caseForms) :
    ∀ c ∈ upper text, c ∈ caseForms := by
  intro c member
  obtain ⟨d, source, member⟩ := mem_flatMap.mp member
  obtain ⟨u, known, same, -⟩ := upperChar_of_mem_caseForms d (letters d source)
  rw [same, mem_singleton] at member
  exact member ▸ known

end Text

namespace Sql

open Text

variable {taken : Nat}

theorem isPathChar_of_mem_caseForms (letter : c ∈ caseForms) : isPathChar c = true := by
  simp [isPathChar, isWord_of_mem_caseForms c letter]

theorem isPathChar_of_isBlank (blank : isBlank c = true) : isPathChar c = false := by
  have other : c ≠ '.' := by
    rintro rfl
    cases blank
  simp [isPathChar, isWord_of_isBlank blank, other]

theorem isBlank_of_isPathChar (path : isPathChar c = true) : isBlank c = false := by
  cases blank : isBlank c with
  | false => rfl
  | true => rw [isPathChar_of_isBlank blank] at path; cases path

/-- A word of a text: a run of path characters that goes no further. -/
structure WholeWord (word rest : Text) : Prop where
  occupied : word ≠ []
  path : ∀ c ∈ word, isPathChar c = true
  ends : ∀ c ∈ rest.head?, isPathChar c = false

namespace WholeWord

theorem takeWhile_eq (whole : WholeWord word rest) :
    (word ++ rest).takeWhile isPathChar = word :=
  takeWhile_append_of_head whole.path whole.ends

theorem not_ends (whole : WholeWord word rest) :
    ¬ ∀ c ∈ (word ++ rest).head?, isPathChar c = false := by
  intro ends
  obtain ⟨c, later, rfl⟩ := exists_cons_of_ne_nil whole.occupied
  have other := ends c rfl
  rw [whole.path c mem_cons_self] at other
  cases other

theorem unique {other tail : Text} (whole : WholeWord word rest) (again : WholeWord other tail)
    (same : word ++ rest = other ++ tail) : word = other ∧ rest = tail := by
  have words : word = other := by rw [← whole.takeWhile_eq, same, again.takeWhile_eq]
  subst words
  exact ⟨rfl, append_cancel_left same⟩

theorem solid (whole : WholeWord word rest) : ∀ c ∈ word, isBlank c = false :=
  fun c member => isBlank_of_isPathChar (whole.path c member)

theorem trimLeft_append {gap : Text} (whole : WholeWord word rest) (blank : allBlank gap = true) :
    trimLeft (gap ++ (word ++ rest)) = word ++ rest := by
  obtain ⟨c, later, rfl⟩ := exists_cons_of_ne_nil whole.occupied
  rw [trimLeft_append_of_allBlank blank]
  exact trimLeft_of_head fun d head => Option.some.inj head ▸ whole.solid c mem_cons_self

end WholeWord

/-- A word that is a keyword by itself. -/
def IsKeyword (word : Text) : Prop :=
  ∃ keyword ∈ wordKeywords, Spells keyword word

/-- Two words that are a keyword together. -/
def IsPhrase (first second : Text) : Prop :=
  ∃ lead last, [lead, last] ∈ phraseKeywords ∧ Spells lead first ∧ Spells last second

/-- A second word behind nothing but blanks that makes a keyword with the word
before it. -/
structure Completes (word rest gap second tail : Text) : Prop where
  rest_eq : rest = gap ++ (second ++ tail)
  occupied : gap ≠ []
  blank : allBlank gap = true
  whole : WholeWord second tail
  phrase : IsPhrase word second

theorem lower_wordKeywords :
    ∀ keyword ∈ wordKeywords, keyword ≠ [] ∧ ∀ letter ∈ keyword, letter ∈ lowerLetters := by
  decide

theorem lower_phraseKeywords :
    ∀ phrase ∈ phraseKeywords, ∃ lead last, phrase = [lead, last] ∧
      (lead ≠ [] ∧ ∀ letter ∈ lead, letter ∈ lowerLetters) ∧
      (last ≠ [] ∧ ∀ letter ∈ last, letter ∈ lowerLetters) := by
  intro phrase member
  simp only [phraseKeywords, mem_cons, not_mem_nil, or_false] at member
  rcases member with rfl | rfl | rfl | rfl | rfl | rfl | rfl <;>
    exact ⟨_, _, rfl, by decide, by decide⟩

/-- How far a keyword reaches in a text that begins with it as whole words. -/
def reach? (text : Text) (keyword : List Text) : Option Nat := do
  let rest ← afterPhrase? keyword text
  if rest.head?.any isPathChar then none else some (text.length - rest.length)

theorem keywordAt?_eq {before : Option Char} (apart : before.any isPathChar = false)
    (text : Text) :
    keywordAt? before text =
      (phraseKeywords.findSome? (reach? text)).or
        (wordKeywords.findSome? fun word => reach? text [word]) := by
  simp only [keywordAt?, apart, keywords, findSome?_append, findSome?_map]
  rfl

theorem wholeWord_of_spells {taken : Text} (occupied : word ≠ [])
    (lower : ∀ letter ∈ word, letter ∈ lowerLetters) (spells : Spells word taken)
    (ends : ∀ c ∈ rest.head?, isPathChar c = false) : WholeWord taken rest where
  occupied := by
    rintro rfl
    exact occupied (forall₂_nil_right_iff.mp spells)
  path c member := isPathChar_of_mem_caseForms (spells.mem_caseForms lower c member)
  ends := ends

theorem reach?_word (occupied : word ≠ []) (lower : ∀ letter ∈ word, letter ∈ lowerLetters) :
    reach? text [word] = some taken ↔
      ∃ found rest, text = found ++ rest ∧ WholeWord found rest ∧ Spells word found ∧
        taken = found.length := by
  simp only [reach?, afterPhrase?, Option.bind_eq_bind, Option.bind_eq_some_iff,
    afterWord?_eq_some_iff]
  constructor
  · rintro ⟨rest, ⟨found, rfl, spells⟩, limited⟩
    split at limited
    · cases limited
    · next ends =>
        have ends := (Option.any_eq_false _ _).mp (Bool.eq_false_iff.mpr ends)
        refine ⟨found, rest, rfl, wholeWord_of_spells occupied lower spells ends, spells, ?_⟩
        simpa [eq_comm] using limited
  · rintro ⟨found, rest, rfl, whole, spells, rfl⟩
    refine ⟨rest, ⟨found, rfl, spells⟩, ?_⟩
    rw [(Option.any_eq_false _ _).mpr whole.ends]
    simp

theorem reach?_phrase {lead last : Text} (member : [lead, last] ∈ phraseKeywords) :
    reach? text [lead, last] = some taken ↔
      ∃ first gap second tail, text = first ++ (gap ++ (second ++ tail)) ∧ gap ≠ [] ∧
        allBlank gap = true ∧ WholeWord second tail ∧ Spells lead first ∧ Spells last second ∧
        taken = (first ++ (gap ++ second)).length := by
  obtain ⟨_, _, same, ⟨occupiedLead, lowerLead⟩, occupiedLast, lowerLast⟩ :=
    lower_phraseKeywords _ member
  obtain ⟨rfl, rfl⟩ : lead = _ ∧ last = _ := by simpa using same
  constructor
  · intro found
    simp only [reach?, afterPhrase?, Option.bind_eq_bind, Option.bind_eq_some_iff,
      afterWord?_eq_some_iff] at found
    obtain ⟨tail, ⟨rest, ⟨first, rfl, spellsLead⟩, behind⟩, limited⟩ := found
    split at behind
    next blank =>
      obtain ⟨second, same, spellsLast⟩ := afterWord?_eq_some_iff.mp behind
      split at limited
      · cases limited
      · next ends =>
          have ends := (Option.any_eq_false _ _).mp (Bool.eq_false_iff.mpr ends)
          have whole := wholeWord_of_spells occupiedLast lowerLast spellsLast ends
          obtain ⟨gap, blankGap, rest_eq⟩ := exists_trimLeft rest
          rw [same] at rest_eq
          subst rest_eq
          refine ⟨first, gap, second, tail, rfl, ?_, blankGap, whole, spellsLead, spellsLast, ?_⟩
          · rintro rfl
            obtain ⟨c, later, rfl⟩ := exists_cons_of_ne_nil whole.occupied
            have solid := whole.solid c mem_cons_self
            simp [solid] at blank
          · simp only [Option.some.injEq, length_append] at limited
            simp only [length_append]
            omega
    · cases behind
  · rintro ⟨first, gap, second, tail, rfl, occupied, blank, whole, spellsLead, spellsLast, rfl⟩
    have follows : afterPhrase? [lead, last] (first ++ (gap ++ (second ++ tail))) = some tail := by
      have afterLead := spellsLead.afterWord? (gap ++ (second ++ tail))
      have afterLast := spellsLast.afterWord? tail
      have trimmed := whole.trimLeft_append blank
      obtain ⟨b, more, rfl⟩ := exists_cons_of_ne_nil occupied
      have headBlank : isBlank b = true := by simp_all
      simp only [afterPhrase?, afterLead, Option.bind_eq_bind, Option.bind_some, trimmed, afterLast]
      simp [headBlank]
    simp only [reach?, follows, Option.bind_eq_bind, Option.bind_some,
      (Option.any_eq_false _ _).mpr whole.ends]
    simp only [Bool.false_eq_true, if_false, Option.some.injEq, length_append]
    omega

theorem IsPhrase.wholeWord {first second : Text} (phrase : IsPhrase first second)
    (ends : ∀ c ∈ rest.head?, isPathChar c = false) : WholeWord first rest := by
  obtain ⟨lead, last, member, spells, -⟩ := phrase
  obtain ⟨_, _, same, ⟨occupied, lower⟩, -⟩ := lower_phraseKeywords _ member
  obtain ⟨rfl, rfl⟩ : lead = _ ∧ last = _ := by simpa using same
  exact wholeWord_of_spells occupied lower spells ends

namespace Completes

variable {gap second tail : Text}

theorem ends (completes : Completes word rest gap second tail) :
    ∀ c ∈ rest.head?, isPathChar c = false := by
  obtain ⟨rfl, occupied, blank, -, -⟩ := completes
  obtain ⟨b, more, rfl⟩ := exists_cons_of_ne_nil occupied
  rintro c ⟨⟩
  exact isPathChar_of_isBlank (allBlank_iff.mp blank b mem_cons_self)

theorem wholeWord (completes : Completes word rest gap second tail) : WholeWord word rest :=
  completes.phrase.wholeWord completes.ends

theorem trimLeft_rest (completes : Completes word rest gap second tail) :
    trimLeft rest = second ++ tail := by
  obtain ⟨rfl, -, blank, whole, -⟩ := completes
  exact whole.trimLeft_append blank

theorem unique {other word' tail' : Text} (completes : Completes word rest gap second tail)
    (again : Completes word rest other word' tail') :
    gap = other ∧ second = word' ∧ tail = tail' := by
  have same := completes.trimLeft_rest.symm.trans again.trimLeft_rest
  obtain ⟨rfl, rfl⟩ := completes.whole.unique again.whole same
  exact ⟨append_cancel_right (completes.rest_eq.symm.trans again.rest_eq), rfl, rfl⟩

end Completes

/-- What keywords of two words find is a completion of the first word. -/
theorem findSome?_phraseKeywords (whole : WholeWord word rest) :
    phraseKeywords.findSome? (reach? (word ++ rest)) = some taken ↔
      ∃ gap second tail, Completes word rest gap second tail ∧
        taken = (word ++ (gap ++ second)).length := by
  have each : ∀ phrase ∈ phraseKeywords, ∀ taken, reach? (word ++ rest) phrase = some taken →
      ∃ gap second tail, Completes word rest gap second tail ∧
        taken = (word ++ (gap ++ second)).length := by
    intro phrase member taken found
    obtain ⟨lead, last, rfl, -⟩ := lower_phraseKeywords phrase member
    obtain ⟨first, gap, second, tail, same, occupied, blank, wholeSecond,
        spells, spellsLast, rfl⟩ :=
      (reach?_phrase member).mp found
    have completes : Completes first (gap ++ (second ++ tail)) gap second tail :=
      ⟨rfl, occupied, blank, wholeSecond, lead, last, member, spells, spellsLast⟩
    obtain ⟨rfl, rfl⟩ := whole.unique completes.wholeWord same
    exact ⟨gap, second, tail, completes, rfl⟩
  constructor
  · intro found
    obtain ⟨phrase, member, reached⟩ := exists_of_findSome?_eq_some found
    exact each phrase member taken reached
  · rintro ⟨gap, second, tail, completes, rfl⟩
    obtain ⟨lead, last, member, spells, spellsLast⟩ := completes.phrase
    have reached := (reach?_phrase member).mpr ⟨word, gap, second, tail,
      congrArg (word ++ ·) completes.rest_eq, completes.occupied, completes.blank, completes.whole,
      spells, spellsLast, rfl⟩
    cases found : phraseKeywords.findSome? (reach? (word ++ rest)) with
    | none =>
      rw [findSome?_eq_none_iff.mp found _ member] at reached
      cases reached
    | some taken =>
      obtain ⟨phrase, member, reached⟩ := exists_of_findSome?_eq_some found
      obtain ⟨_, _, _, again, rfl⟩ := each phrase member taken reached
      obtain ⟨rfl, rfl, -⟩ := completes.unique again
      rfl

theorem findSome?_wordKeywords (whole : WholeWord word rest) :
    (wordKeywords.findSome? fun keyword => reach? (word ++ rest) [keyword]) = some taken ↔
      IsKeyword word ∧ taken = word.length := by
  have each : ∀ keyword ∈ wordKeywords, ∀ taken, reach? (word ++ rest) [keyword] = some taken →
      IsKeyword word ∧ taken = word.length := by
    intro keyword member taken found
    obtain ⟨occupied, lower⟩ := lower_wordKeywords keyword member
    obtain ⟨first, tail, same, wholeFirst, spells, rfl⟩ := (reach?_word occupied lower).mp found
    obtain ⟨rfl, rfl⟩ := whole.unique wholeFirst same
    exact ⟨⟨keyword, member, spells⟩, rfl⟩
  constructor
  · intro found
    obtain ⟨keyword, member, reached⟩ := exists_of_findSome?_eq_some found
    exact each keyword member taken reached
  · rintro ⟨⟨keyword, member, spells⟩, rfl⟩
    obtain ⟨occupied, lower⟩ := lower_wordKeywords keyword member
    have reached := (reach?_word occupied lower).mpr ⟨word, rest, rfl, whole, spells, rfl⟩
    cases found : wordKeywords.findSome? fun keyword => reach? (word ++ rest) [keyword] with
    | none =>
      rw [findSome?_eq_none_iff.mp found _ member] at reached
      cases reached
    | some taken =>
      obtain ⟨keyword, member, reached⟩ := exists_of_findSome?_eq_some found
      rw [(each keyword member taken reached).2]

end Sql

end LookML
