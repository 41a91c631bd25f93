import LookML.Proofs.Spelling

/-!
# Spelling is final

Once the keywords of a text are upper-cased and its operators stand between spaces,
spelling it again changes nothing, and neither do blanks at its ends.
-/

namespace LookML

open List

variable {word : Text}

namespace Text

theorem Spells.of_upper {text : Text} (lower : ∀ letter ∈ word, letter ∈ lowerLetters)
    (letters : ∀ c ∈ text, c ∈ caseForms) (spells : Spells word (Text.upper text)) :
    Spells word text := by
  induction text generalizing word with
  | nil => exact spells
  | cons c text ih =>
    obtain ⟨u, -, same, -, matching⟩ :=
      upperChar_of_mem_caseForms c (letters c mem_cons_self)
    rw [show Text.upper (c :: text) = u :: Text.upper text by simp [Text.upper, same]] at spells
    obtain ⟨letter, rest, matched, later, rfl⟩ := forall₂_cons_right_iff.mp spells
    refine .cons ?_ (ih ?_ ?_ later)
    · rw [← matching letter (lower letter mem_cons_self)]
      exact matched
    · exact (forall_mem_cons.mp lower).2
    · exact (forall_mem_cons.mp letters).2

end Text

namespace Sql

open Text

variable {first second source rest result gap tail : Text} {c : Char}

theorem IsPhrase.upper (known : IsPhrase first second) : IsPhrase (upper first) (upper second) := by
  obtain ⟨lead, last, member, spells, spellsLast, lower, lowerLast⟩ := known.lower
  exact ⟨lead, last, member, spells.upper lower, spellsLast.upper lowerLast⟩

/-- A word of a spelled text stands for a word of the text. -/
def StandsFor (word source : Text) : Prop :=
  word = source ∨ (word = upper source ∧ ∀ c ∈ source, c ∈ caseForms)

theorem StandsFor.spells {keyword : Text} (stands : StandsFor word source)
    (lower : ∀ letter ∈ keyword, letter ∈ lowerLetters) (spells : Spells keyword word) :
    Spells keyword source := by
  rcases stands with rfl | ⟨rfl, letters⟩
  · exact spells
  · exact spells.of_upper lower letters

theorem StandsFor.isPhrase {other : Text} (stands : StandsFor first source)
    (standsSecond : StandsFor second other) (known : IsPhrase first second) :
    IsPhrase source other := by
  obtain ⟨lead, last, member, spells, spellsLast, lower, lowerLast⟩ := known.lower
  exact ⟨lead, last, member, stands.spells lower spells, standsSecond.spells lowerLast spellsLast⟩

theorem WholeWord.upper (whole : WholeWord word rest)
    (letters : ∀ c ∈ word, c ∈ caseForms) (ends : ∀ c ∈ result.head?, isPathChar c = false) :
    WholeWord (upper word) result where
  occupied := by
    obtain ⟨c, later, rfl⟩ := exists_cons_of_ne_nil whole.occupied
    obtain ⟨u, -, same, -⟩ := upperChar_of_mem_caseForms c (letters c mem_cons_self)
    simp [Text.upper, same]
  path c member := isPathChar_of_mem_caseForms (mem_caseForms_upper letters c member)
  ends := ends

namespace Worded

variable {text : Text}

/-- Spelling the keywords leaves a text to begin with a word or not. -/
theorem ends (worded : Worded text result) (ends : ∀ c ∈ text.head?, isPathChar c = false) :
    ∀ c ∈ result.head?, isPathChar c = false := by
  cases worded with
  | nil | other apart _ => exact ends
  | phrase completes _ => exact absurd ends completes.wholeWord.not_ends
  | keyword whole _ _ _ | word whole _ _ _ => exact absurd ends whole.not_ends

/-- The first word of a spelled text comes from the first word of the text. -/
theorem exists_source (worded : Worded text result)
    (whole : WholeWord word rest) (same : result = word ++ rest) :
    ∃ source tail, text = source ++ tail ∧ WholeWord source tail ∧ StandsFor word source := by
  cases worded with
  | nil => exact absurd (append_eq_nil_iff.mp same.symm).1 whole.occupied
  | @other c text result apart _ =>
    refine absurd ?_ whole.not_ends
    rw [← same]
    simpa using apart
  | @phrase first gap second text result completes inner =>
    have letters := completes.phrase.letters.1
    have upperFirst : WholeWord (upper first) (' ' :: (upper second ++ result)) := by
      apply completes.wholeWord.upper letters
      intro c head
      cases head
      rfl
    obtain ⟨rfl, -⟩ := upperFirst.unique whole same
    exact ⟨first, _, rfl, completes.wholeWord, .inr ⟨rfl, letters⟩⟩
  | @keyword source text result wholeSource _ known inner =>
    have upperWord := wholeSource.upper known.letters (inner.ends wholeSource.ends)
    obtain ⟨rfl, -⟩ := upperWord.unique whole same
    exact ⟨source, _, rfl, wholeSource, .inr ⟨rfl, known.letters⟩⟩
  | @word source text result wholeSource _ _ inner =>
    have kept : WholeWord source result :=
      ⟨wholeSource.occupied, wholeSource.path, inner.ends wholeSource.ends⟩
    obtain ⟨rfl, -⟩ := kept.unique whole same
    exact ⟨source, _, rfl, wholeSource, .inl rfl⟩

/-- What begins with blanks in a spelled text begins with them in the text. -/
theorem exists_behind (worded : Worded text result)
    (blank : allBlank gap = true) (same : result = gap ++ rest) :
    ∃ tail, text = gap ++ tail ∧ Worded tail rest := by
  induction gap generalizing text result with
  | nil =>
    obtain rfl : result = rest := same
    exact ⟨text, rfl, worded⟩
  | cons b gap ih =>
    simp only [allBlank_cons, Bool.and_eq_true] at blank
    have apart := isPathChar_of_isBlank blank.1
    have impossible {word tail : Text} (whole : WholeWord word tail)
        (same : word ++ tail = b :: (gap ++ rest)) : False := by
      refine whole.not_ends ?_
      rw [same]
      simpa using apart
    cases worded with
    | nil => cases same
    | @other c text result _ inner =>
      obtain ⟨rfl, behind⟩ := cons.inj same
      obtain ⟨tail, rfl, worded⟩ := ih inner blank.2 behind
      exact ⟨tail, rfl, worded⟩
    | @phrase first between second text result completes inner =>
      have upperFirst : WholeWord (upper first) (' ' :: (upper second ++ result)) := by
        apply completes.wholeWord.upper completes.phrase.letters.1
        intro c head
        cases head
        rfl
      exact (impossible upperFirst same).elim
    | @keyword source text result wholeSource _ known inner =>
      have upperWord := wholeSource.upper known.letters (inner.ends wholeSource.ends)
      exact (impossible upperWord same).elim
    | @word source text result wholeSource _ _ inner =>
      have kept : WholeWord source result :=
        ⟨wholeSource.occupied, wholeSource.path, inner.ends wholeSource.ends⟩
      exact (impossible kept same).elim

/-- A keyword of two words in a spelled text was one before. -/
theorem exists_completes (worded : Worded text result)
    (stands : StandsFor word source) (completes : Completes word result gap second tail) :
    ∃ other behind, Completes source text gap other behind := by
  obtain ⟨rest, rfl, inner⟩ := worded.exists_behind completes.blank completes.rest_eq
  obtain ⟨other, behind, rfl, whole, standsSecond⟩ := inner.exists_source completes.whole rfl
  exact ⟨other, behind, rfl, completes.occupied, completes.blank, whole,
    stands.isPhrase standsSecond completes.phrase⟩

end Worded

/-- A text whose keywords are in upper case, with one space between the words of a
keyword. -/
inductive Uppercased : Text → Prop
  | nil : Uppercased []
  | gap {gap text : Text} (occupied : gap ≠ []) (apart : ∀ c ∈ gap, isPathChar c = false)
      (next : ∀ c ∈ text.head?, isPathChar c = true) (rest : Uppercased text) :
      Uppercased (gap ++ text)
  | phrase {first second text : Text} (known : IsPhrase first second)
      (whole : WholeWord second text) (final : upper first = first)
      (finalSecond : upper second = second) (rest : Uppercased text) :
      Uppercased (first ++ ' ' :: (second ++ text))
  | word {word text : Text} (whole : WholeWord word text)
      (alone : ∀ gap second tail, ¬ Completes word text gap second tail)
      (final : IsKeyword word → upper word = word) (rest : Uppercased text) :
      Uppercased (word ++ text)

theorem head?_of_wholeWord (whole : WholeWord word rest) :
    ∀ c ∈ (word ++ rest).head?, isPathChar c = true := by
  obtain ⟨c, later, rfl⟩ := exists_cons_of_ne_nil whole.occupied
  intro d head
  cases head
  exact whole.path c mem_cons_self

theorem completes_of_isPhrase {text : Text} (known : IsPhrase first second)
    (whole : WholeWord second text) :
    Completes first ([' '] ++ (second ++ text)) [' '] second text :=
  ⟨rfl, cons_ne_nil _ _, rfl, whole, known⟩

namespace Uppercased

variable {text : Text}

theorem cons_other (apart : isPathChar c = false) (rest : Uppercased text) :
    Uppercased (c :: text) := by
  have alone : ∀ d ∈ [c], isPathChar d = false := by
    intro d member
    rwa [mem_singleton.mp member]
  cases rest with
  | nil => exact .gap (cons_ne_nil c []) alone (by simp) .nil
  | @gap gap text _ all next rest =>
    exact .gap (cons_ne_nil c gap) (forall_mem_cons.mpr ⟨apart, all⟩) next rest
  | @phrase first second text known whole final finalSecond rest =>
    have completes := completes_of_isPhrase known whole
    exact .gap (cons_ne_nil c []) alone (head?_of_wholeWord completes.wholeWord)
      (.phrase known whole final finalSecond rest)
  | @word word text whole single final rest =>
    exact .gap (cons_ne_nil c []) alone (head?_of_wholeWord whole)
      (.word whole single final rest)

end Uppercased

theorem Worded.uppercased {text : Text} (worded : Worded text result) : Uppercased result := by
  induction worded with
  | nil => exact .nil
  | other apart _ ih => exact ih.cons_other apart
  | @phrase first gap second text result completes rest ih =>
    obtain ⟨letters, lettersSecond⟩ := completes.phrase.letters
    exact .phrase completes.phrase.upper
      (completes.whole.upper lettersSecond (rest.ends completes.whole.ends))
      (upper_upper letters) (upper_upper lettersSecond) ih
  | @keyword word text result whole alone known rest ih =>
    refine .word (whole.upper known.letters (rest.ends whole.ends)) ?_ ?_ ih
    · intro gap second tail completes
      obtain ⟨other, behind, source⟩ :=
        rest.exists_completes (.inr ⟨rfl, known.letters⟩) completes
      exact alone gap other behind source
    · exact fun _ => upper_upper known.letters
  | @word word text result whole alone unknown rest ih =>
    refine .word ⟨whole.occupied, whole.path, rest.ends whole.ends⟩ ?_ ?_ ih
    · intro gap second tail completes
      obtain ⟨other, behind, source⟩ := rest.exists_completes (.inl rfl) completes
      exact alone gap other behind source
    · exact fun known => absurd known unknown

theorem worded_append_of_apart (apart : ∀ c ∈ gap, isPathChar c = false)
    {text : Text} (rest : Worded text result) : Worded (gap ++ text) (gap ++ result) := by
  induction gap with
  | nil => exact rest
  | cons c gap ih =>
    exact .other (apart c mem_cons_self)
      (ih (forall_mem_cons.mp apart).2)

theorem Uppercased.worded {text : Text} (uppercased : Uppercased text) : Worded text text := by
  induction uppercased with
  | nil => exact .nil
  | gap _ apart _ _ ih => exact worded_append_of_apart apart ih
  | @phrase first second text known whole final finalSecond rest ih =>
    have worded := Worded.phrase (completes_of_isPhrase known whole) ih
    rwa [final, finalSecond] at worded
  | @word word text whole alone final rest ih =>
    by_cases known : IsKeyword word
    · have worded := Worded.keyword whole alone known ih
      rwa [final known] at worded
    · exact .word whole alone known ih

theorem free_of_isPathChar (path : isPathChar c = true) : blocksOperator c = false ∧ c ≠ ' ' := by
  constructor
  · cases blocked : blocksOperator c with
    | false => rfl
    | true =>
      simp only [blocksOperator, isOperatorChar, Bool.or_eq_true, beq_iff_eq] at blocked
      rcases blocked with (((rfl | rfl) | rfl) | rfl) | rfl <;> revert path <;> decide +kernel
  · intro space
    rw [space, isPathChar_of_isBlank isBlank_space] at path
    cases path

theorem head?_tidy {text : Text} (plain : ∀ c ∈ text.head?, isOperatorChar c = false) :
    (tidy text).head? = text.head? := by
  rw [tidy, head?_squeezeSpaces, head?_of_spaced (spaced_spaceOperators text) plain]

theorem tidy_append_of_path (path : ∀ c ∈ word, isPathChar c = true) (text : Text) :
    tidy (word ++ text) = word ++ tidy text :=
  tidy_append_of_free (fun c member => free_of_isPathChar (path c member)) text

theorem plain_of_isPathChar {text : Text} (path : ∀ c ∈ text.head?, isPathChar c = true) :
    ∀ c ∈ text.head?, isOperatorChar c = false ∧ c ≠ ' ' := by
  intro c head
  have free := free_of_isPathChar (path c head)
  exact ⟨isOperatorChar_of_free free.1, free.2⟩

theorem isPathChar_of_mem_tidy (apart : ∀ c ∈ gap, isPathChar c = false) :
    ∀ c ∈ tidy gap, isPathChar c = false := by
  intro c member
  cases blank : isBlank c with
  | true => exact isPathChar_of_isBlank blank
  | false =>
    have solid : c ∈ squash (tidy gap) := mem_filter.mpr ⟨member, by simp [blank]⟩
    rw [squash_tidy] at solid
    exact apart c (mem_filter.mp solid).1

theorem ends_tidy {text : Text} (ends : ∀ c ∈ text.head?, isPathChar c = false) :
    ∀ c ∈ (tidy text).head?, isPathChar c = false := by
  rw [tidy, head?_squeezeSpaces]
  have spaced := spaced_spaceOperators text
  generalize spaceOperators text = result at spaced ⊢
  cases spaced with
  | nil | plain _ _ => exact ends
  | found _ present _ =>
    obtain ⟨-, rfl, -⟩ := exists_of_spacingAt present
    intro c head
    cases head
    exact isPathChar_of_isBlank isBlank_space

theorem WholeWord.tidy (whole : WholeWord word rest) : WholeWord word (tidy rest) :=
  ⟨whole.occupied, whole.path, ends_tidy whole.ends⟩

/-- A run that stops at the first path character is the same however it is found. -/
theorem gap_unique {text other : Text} (apart : ∀ c ∈ gap, isPathChar c = false)
    (next : ∀ c ∈ text.head?, isPathChar c = true) (apartOther : ∀ c ∈ other, isPathChar c = false)
    (nextOther : ∀ c ∈ rest.head?, isPathChar c = true) (same : gap ++ text = other ++ rest) :
    gap = other ∧ text = rest := by
  have stop {run tail : Text} (apart : ∀ c ∈ run, isPathChar c = false)
      (next : ∀ c ∈ tail.head?, isPathChar c = true) :
      (run ++ tail).takeWhile (!isPathChar ·) = run :=
    takeWhile_append_of_head (fun c member => by simp [apart c member])
      (fun c head => by simp [next c head])
  have gaps : gap = other := by rw [← stop apart next, same, stop apartOther nextOther]
  subst gaps
  exact ⟨rfl, append_cancel_left same⟩

namespace Uppercased

variable {text : Text}

/-- Tidying keeps the first word of a text. -/
theorem exists_of_tidy (uppercased : Uppercased text)
    (whole : WholeWord word rest) (same : tidy text = word ++ rest) :
    ∃ tail, text = word ++ tail ∧ WholeWord word tail := by
  have kept {source tail : Text} (wholeSource : WholeWord source tail)
      (same : tidy (source ++ tail) = word ++ rest) :
      ∃ behind, source ++ tail = word ++ behind ∧ WholeWord word behind := by
    rw [tidy_append_of_path wholeSource.path] at same
    obtain ⟨rfl, -⟩ := wholeSource.tidy.unique whole same
    exact ⟨tail, rfl, wholeSource⟩
  cases uppercased with
  | nil => exact absurd (append_eq_nil_iff.mp same.symm).1 whole.occupied
  | @gap gap text occupied apart _ _ =>
    have ends : ∀ c ∈ (gap ++ text).head?, isPathChar c = false := by
      obtain ⟨d, later, rfl⟩ := exists_cons_of_ne_nil occupied
      intro c head
      cases head
      exact apart d mem_cons_self
    exact absurd (same ▸ ends_tidy ends) whole.not_ends
  | phrase known wholeSecond _ _ _ =>
    exact kept (completes_of_isPhrase known wholeSecond).wholeWord same
  | word wholeSource _ _ _ => exact kept wholeSource same

/-- Tidying makes no keyword of two words. -/
theorem exists_completes_of_tidy (uppercased : Uppercased text)
    (completes : Completes word (tidy text) gap second tail) :
    ∃ gap tail, Completes word text gap second tail := by
  have impossible {source rest : Text} (whole : WholeWord source rest)
      (completes : Completes word (tidy (source ++ rest)) gap second tail) : False := by
    have ends := completes.ends
    rw [tidy_append_of_path whole.path] at ends
    exact whole.tidy.not_ends ends
  cases uppercased with
  | nil => exact absurd (append_eq_nil_iff.mp completes.rest_eq.symm).1 completes.occupied
  | @gap between text occupied apart next rest =>
    have rest_eq := completes.rest_eq
    rw [tidy_append (plain_of_isPathChar next)] at rest_eq
    have plain : ∀ c ∈ text.head?, isOperatorChar c = false :=
      fun c head => (plain_of_isPathChar next c head).1
    have apartGap : ∀ c ∈ gap, isPathChar c = false :=
      fun c member => isPathChar_of_isBlank (allBlank_iff.mp completes.blank c member)
    obtain ⟨rfl, behind⟩ := gap_unique (isPathChar_of_mem_tidy apart)
      (by rw [head?_tidy plain]; exact next) apartGap (head?_of_wholeWord completes.whole) rest_eq
    obtain ⟨tail, rfl, whole⟩ := rest.exists_of_tidy completes.whole behind
    have blank : allBlank between = true := by
      rw [← squash_eq_nil_iff, ← squash_tidy, squash_eq_nil_iff]
      exact completes.blank
    exact ⟨between, tail, rfl, occupied, blank, whole, completes.phrase⟩
  | phrase known whole _ _ _ =>
    exact (impossible (completes_of_isPhrase known whole).wholeWord completes).elim
  | word whole _ _ _ => exact (impossible whole completes).elim

protected theorem tidy (uppercased : Uppercased text) : Uppercased (tidy text) := by
  induction uppercased with
  | nil => exact .nil
  | @gap gap text _ apart next _ ih =>
    rw [tidy_append (plain_of_isPathChar next)]
    by_cases empty : tidy gap = []
    · rwa [empty]
    · refine .gap empty (isPathChar_of_mem_tidy apart) ?_ ih
      rw [head?_tidy fun c head => (plain_of_isPathChar next c head).1]
      exact next
  | @phrase first second text known whole final finalSecond _ ih =>
    have wholeFirst := (completes_of_isPhrase known whole).wholeWord
    have space : tidy [' '] = [' '] := rfl
    rw [tidy_append_of_path wholeFirst.path, ← singleton_append,
      tidy_append (plain_of_isPathChar (head?_of_wholeWord whole)), space,
      tidy_append_of_path whole.path]
    have phrase := phrase known whole.tidy final finalSecond ih
    exact phrase
  | @word word text whole alone final rest ih =>
    rw [tidy_append_of_path whole.path]
    refine .word whole.tidy ?_ final ih
    intro gap second tail completes
    obtain ⟨gap, tail, source⟩ := rest.exists_completes_of_tidy completes
    exact alone gap second tail source

end Uppercased

theorem uppercased_spell (text : Text) : Uppercased (spell text) :=
  (worded_spellKeywords text).uppercased.tidy

theorem spell_spell (text : Text) : spell (spell text) = spell text := by
  rw [spell_eq (spell text), (uppercased_spell text).worded.spellKeywords_eq, spell_eq, tidy_tidy]

section Ends

theorem blocksOperator_of_isBlank (blank : isBlank c = true) : blocksOperator c = false := by
  have each : ∀ c ∈ blanks, blocksOperator c = false := by decide +kernel
  exact each c (mem_blanks blank)

/-- A keyword of two words is one without a character behind it. -/
theorem Completes.drop_last
    (apart : isPathChar c = false) (completes : Completes word (rest ++ [c]) gap second tail) :
    ∃ behind, Completes word rest gap second behind := by
  obtain ⟨rest_eq, occupied, blankGap, whole, phrase⟩ := completes
  rcases eq_nil_or_concat tail with rfl | ⟨behind, d, rfl⟩
  · obtain ⟨front, d, rfl⟩ := (eq_nil_or_concat second).resolve_left whole.occupied
    have last := congrArg List.getLast? rest_eq
    simp only [concat_eq_append, append_nil, getLast?_append, getLast?_singleton,
      Option.some_or, Option.some.injEq] at last
    have path := whole.path d (by simp)
    rw [← last, apart] at path
    cases path
  · rw [concat_eq_append, ← append_assoc, ← append_assoc] at rest_eq
    obtain ⟨rfl, -⟩ := append_inj' rest_eq rfl
    refine ⟨behind, append_assoc .., occupied, blankGap, ⟨whole.occupied, whole.path, ?_⟩, phrase⟩
    intro e head
    apply whole.ends e
    rw [concat_eq_append]
    exact mem_head?_append_of_mem_head? head

theorem WholeWord.append_last (apart : isPathChar c = false)
    (whole : WholeWord word rest) : WholeWord word (rest ++ [c]) := by
  refine ⟨whole.occupied, whole.path, ?_⟩
  cases rest with
  | nil =>
    intro d head
    cases head
    exact apart
  | cons d rest => exact whole.ends

theorem Worded.append_last {text : Text} (apart : isPathChar c = false)
    (worded : Worded text result) : Worded (text ++ [c]) (result ++ [c]) := by
  induction worded with
  | nil => exact .other apart .nil
  | other other _ ih => exact .other other ih
  | @phrase first gap second text result completes rest ih =>
    have longer : Completes first (gap ++ (second ++ (text ++ [c]))) gap second (text ++ [c]) :=
      ⟨rfl, completes.occupied, completes.blank, completes.whole.append_last apart,
        completes.phrase⟩
    simpa using phrase longer ih
  | keyword whole alone known _ ih =>
    rw [append_assoc, append_assoc]
    refine .keyword (whole.append_last apart) ?_ known ih
    intro gap second tail completes
    obtain ⟨behind, shorter⟩ := completes.drop_last apart
    exact alone gap second behind shorter
  | word whole alone unknown _ ih =>
    rw [append_assoc, append_assoc]
    refine .word (whole.append_last apart) ?_ unknown ih
    intro gap second tail completes
    obtain ⟨behind, shorter⟩ := completes.drop_last apart
    exact alone gap second behind shorter

/-- What stands behind a text is spelled by itself, if it is neither part of a word nor
of an operator. -/
theorem spell_append_last (apart : isPathChar c = false)
    (free : blocksOperator c = false) (text : Text) :
    spell (text ++ [c]) = squeezeSpaces (spaceOperators (spellKeywords text) ++ [c]) := by
  have keywords := ((worded_spellKeywords text).append_last apart).spellKeywords_eq
  have plain : ∀ d ∈ [c].head?, isOperatorChar d = false := by
    intro d head
    cases head
    exact isOperatorChar_of_free free
  have alone : spaceOperators [c] = [c] := by
    have free : ∀ d ∈ [c], blocksOperator d = false := by
      intro d member
      rw [mem_singleton.mp member, free]
    exact spaceOperators_append_of_free free []
  rw [spell_eq, keywords, tidy, spaceOperators_append plain, alone]

variable {b : Char} (blank : isBlank b = true) (text : Text)
include blank

theorem spell_cons_of_isBlank : spell (b :: text) = pressSpace b (spell text) := by
  have keywords :=
    (Worded.other (isPathChar_of_isBlank blank) (worded_spellKeywords text)).spellKeywords_eq
  have free : ∀ c ∈ [b], blocksOperator c = false := by
    intro c member
    rw [mem_singleton.mp member, blocksOperator_of_isBlank blank]
  rw [spell_eq, keywords, tidy, ← singleton_append, spaceOperators_append_of_free free,
    singleton_append, squeezeSpaces_cons]
  rfl

theorem spell_append_of_isBlank :
    spell (text ++ [b]) = spell text ∨ spell (text ++ [b]) = spell text ++ [b] := by
  rw [spell_append_last (isPathChar_of_isBlank blank) (blocksOperator_of_isBlank blank), spell_eq]
  exact squeezeSpaces_append_last _ b

end Ends

theorem Worded.eq_nil {text : Text} (worded : Worded text []) : text = [] := by
  generalize empty : ([] : Text) = result at worded
  cases worded with
  | nil => rfl
  | other _ _ => cases empty
  | phrase _ _ => simp at empty
  | keyword whole _ known rest =>
    have occupied := (whole.upper known.letters (rest.ends whole.ends)).occupied
    exact absurd (append_eq_nil_iff.mp empty.symm).1 occupied
  | word whole _ _ _ => exact absurd (append_eq_nil_iff.mp empty.symm).1 whole.occupied

theorem spell_eq_nil {text : Text} (empty : spell text = []) : text = [] := by
  have spaced : spaceOperators (spellKeywords text) = [] := by
    rw [← head?_eq_none_iff, ← head?_squeezeSpaces]
    exact congrArg List.head? empty
  have unspaced : spellKeywords text = [] := by
    have rewritten := spaced_spaceOperators (spellKeywords text)
    rw [spaced] at rewritten
    generalize nothing : ([] : Text) = result at rewritten
    generalize spellKeywords text = source at rewritten ⊢
    cases rewritten with
    | nil => rfl
    | plain _ _ => cases nothing
    | found _ present _ =>
      obtain ⟨-, rfl, -⟩ := exists_of_spacingAt present
      cases nothing
  have worded := worded_spellKeywords text
  rw [unspaced] at worded
  exact worded.eq_nil

end Sql

end LookML
