import LookML.Proofs.Keywords
import LookML.Proofs.Operators

/-!
# What spelling does to a text

The spelling of plain SQL is described word by word, and from this description it
follows that spelling changes nothing but blanks and the case of keywords, and that
it changes nothing the second time.
-/

namespace LookML.Sql

open Text List

variable {c : Char} {second text result first : Text}

section Recognition

variable {before : Option Char} {word rest : Text}

theorem keywordAt?_of_path (path : isPathChar c = true) (text : Text) :
    keywordAt? (some c) text = none := by
  simp [keywordAt?, path]

theorem keywordAt?_of_completes (apart : before.any isPathChar = false)
    {gap tail : Text} (completes : Completes word rest gap second tail) :
    keywordAt? before (word ++ rest) = some (word ++ (gap ++ second)).length := by
  have found := (findSome?_phraseKeywords completes.wholeWord).mpr
    ⟨gap, second, tail, completes, rfl⟩
  rw [keywordAt?_eq apart, found, Option.some_or]

theorem keywordAt?_of_alone (apart : before.any isPathChar = false) (whole : WholeWord word rest)
    (alone : ∀ gap second tail, ¬ Completes word rest gap second tail) :
    keywordAt? before (word ++ rest) =
      wordKeywords.findSome? fun keyword => reach? (word ++ rest) [keyword] := by
  have absent : phraseKeywords.findSome? (reach? (word ++ rest)) = none := by
    cases found : phraseKeywords.findSome? (reach? (word ++ rest)) with
    | none => rfl
    | some taken =>
      obtain ⟨gap, second, tail, completes, -⟩ := (findSome?_phraseKeywords whole).mp found
      exact absurd completes (alone gap second tail)
  rw [keywordAt?_eq apart, absent, Option.none_or]

/-- A keyword covers the first word of a text, or the first two. -/
theorem exists_of_keywordAt? {taken : Nat} (found : keywordAt? before text = some taken) :
    ∃ word rest, text = word ++ rest ∧ WholeWord word rest ∧
      ((∃ gap second tail, Completes word rest gap second tail ∧
          taken = (word ++ (gap ++ second)).length) ∨
        IsKeyword word ∧ taken = word.length) := by
  cases apart : before.any isPathChar with
  | true => simp [keywordAt?, apart] at found
  | false =>
    rw [keywordAt?_eq apart, Option.or_eq_some_iff] at found
    rcases found with found | ⟨-, found⟩
    · obtain ⟨phrase, member, reached⟩ := exists_of_findSome?_eq_some found
      obtain ⟨lead, last, rfl, -⟩ := lower_phraseKeywords phrase member
      obtain ⟨first, gap, second, tail, rfl, occupied, blank, whole, spells, spellsLast, rfl⟩ :=
        (reach?_phrase member).mp reached
      have completes : Completes first (gap ++ (second ++ tail)) gap second tail :=
        ⟨rfl, occupied, blank, whole, lead, last, member, spells, spellsLast⟩
      exact ⟨first, _, rfl, completes.wholeWord, .inl ⟨gap, second, tail, completes, rfl⟩⟩
    · obtain ⟨keyword, member, reached⟩ := exists_of_findSome?_eq_some found
      obtain ⟨occupied, lower⟩ := lower_wordKeywords keyword member
      obtain ⟨word, rest, rfl, whole, spells, rfl⟩ := (reach?_word occupied lower).mp reached
      exact ⟨word, rest, rfl, whole, .inr ⟨⟨keyword, member, spells⟩, rfl⟩⟩

theorem keywordAt?_of_other (other : isPathChar c = false) (text : Text) :
    keywordAt? before (c :: text) = none := by
  cases found : keywordAt? before (c :: text) with
  | none => rfl
  | some taken =>
    obtain ⟨word, rest, same, whole, -⟩ := exists_of_keywordAt? found
    refine absurd ?_ whole.not_ends
    rw [← same]
    simpa using other

end Recognition

theorem squeezeBlanks_cons (c : Char) (text : Text) :
    squeezeBlanks (c :: text) =
      if isBlank c then
        if text.head?.any isBlank then squeezeBlanks text else ' ' :: squeezeBlanks text
      else c :: squeezeBlanks text := by
  cases text <;> rfl

theorem squeezeBlanks_append_of_solid (solid : ∀ c ∈ text, isBlank c = false)
    (rest : Text) : squeezeBlanks (text ++ rest) = text ++ squeezeBlanks rest := by
  induction text with
  | nil => rfl
  | cons c text ih =>
    rw [cons_append, squeezeBlanks_cons, solid c mem_cons_self,
      ih (forall_mem_cons.mp solid).2]
    rfl

theorem squeezeBlanks_of_solid (solid : ∀ c ∈ text, isBlank c = false) :
    squeezeBlanks text = text := by
  simpa [squeezeBlanks] using squeezeBlanks_append_of_solid solid []

theorem squeezeBlanks_gap {gap : Text} (occupied : gap ≠ []) (blank : allBlank gap = true)
    (solid : ∀ c ∈ text, isBlank c = false) :
    squeezeBlanks (gap ++ text) = ' ' :: text := by
  induction gap with
  | nil => exact absurd rfl occupied
  | cons b gap ih =>
    simp only [allBlank_cons, Bool.and_eq_true] at blank
    rw [cons_append, squeezeBlanks_cons, blank.1]
    cases gap with
    | nil =>
      have apart : text.head?.any isBlank = false :=
        (Option.any_eq_false _ _).mpr fun c head => solid c (mem_of_head? head)
      simp [apart, squeezeBlanks_of_solid solid]
    | cons d gap =>
      have again : isBlank d = true := by
        have := blank.2
        simp_all
      simp [again, ← ih (cons_ne_nil _ _) blank.2]

/-- The first word of a text that begins with a path character. -/
theorem exists_wholeWord (path : isPathChar c = true) (text : Text) :
    ∃ word rest, c :: text = word ++ rest ∧ WholeWord word rest := by
  refine ⟨c :: text.takeWhile isPathChar, text.dropWhile isPathChar, ?_, ?_⟩
  · rw [cons_append, takeWhile_append_dropWhile]
  · refine ⟨cons_ne_nil _ _, ?_, ?_⟩
    · exact forall_mem_cons.mpr ⟨path, fun _ => mem_takeWhile_imp⟩
    · exact head_dropWhile isPathChar text

/-- A text with its keywords spelled, word by word. -/
inductive Worded : Text → Text → Prop
  | nil : Worded [] []
  | other {c : Char} {text result : Text} (apart : isPathChar c = false)
      (rest : Worded text result) : Worded (c :: text) (c :: result)
  | phrase {first gap second text result : Text}
      (completes : Completes first (gap ++ (second ++ text)) gap second text)
      (rest : Worded text result) :
      Worded (first ++ (gap ++ (second ++ text)))
        (upper first ++ (' ' :: (upper second ++ result)))
  | keyword {word text result : Text} (whole : WholeWord word text)
      (alone : ∀ gap second tail, ¬ Completes word text gap second tail)
      (known : IsKeyword word) (rest : Worded text result) :
      Worded (word ++ text) (upper word ++ result)
  | word {word text result : Text} (whole : WholeWord word text)
      (alone : ∀ gap second tail, ¬ Completes word text gap second tail)
      (unknown : ¬ IsKeyword word) (rest : Worded text result) :
      Worded (word ++ text) (word ++ result)

theorem exists_worded : ∀ text : Text, ∃ result, Worded text result
  | [] => ⟨[], .nil⟩
  | c :: text => by
      cases path : isPathChar c with
      | false =>
        obtain ⟨result, rest⟩ := exists_worded text
        exact ⟨c :: result, .other path rest⟩
      | true =>
        obtain ⟨word, tail, same, whole⟩ := exists_wholeWord path text
        have occupied := length_pos_iff.mpr whole.occupied
        have shorter : tail.length < (c :: text).length := by
          rw [same, length_append]
          omega
        by_cases completed : ∃ gap second behind, Completes word tail gap second behind
        · obtain ⟨gap, second, behind, completes⟩ := completed
          have further : behind.length < (c :: text).length := by
            rw [completes.rest_eq, length_append, length_append] at shorter
            omega
          obtain ⟨result, rest⟩ := exists_worded behind
          obtain rfl := completes.rest_eq
          rw [same]
          exact ⟨_, .phrase completes rest⟩
        · have alone : ∀ gap second behind, ¬ Completes word tail gap second behind :=
            fun gap second behind completes => completed ⟨gap, second, behind, completes⟩
          obtain ⟨result, rest⟩ := exists_worded tail
          rw [same]
          by_cases known : IsKeyword word
          · exact ⟨_, .keyword whole alone known rest⟩
          · exact ⟨_, .word whole alone known rest⟩
  termination_by text => text.length
  decreasing_by
    · simp
    · exact further
    · exact shorter

/-- The keyword at a position with the spelling that replaces it. -/
def spellingAt (before : Option Char) (rest : Text) : Option (Text × Nat) :=
  (keywordAt? before rest).map fun taken => (upper (squeezeBlanks (rest.take taken)), taken)

theorem spellingAt_of_keyword (before : Option Char) (taken rest : Text)
    (found : keywordAt? before (taken ++ rest) = some taken.length) :
    spellingAt before (taken ++ rest) = some (upper (squeezeBlanks taken), taken.length) := by
  rw [spellingAt, found, Option.map_some, take_left]

theorem spellingAt_of_absent {before : Option Char} {rest : Text}
    (absent : keywordAt? before rest = none) : spellingAt before rest = none := by
  rw [spellingAt, absent, Option.map_none]

/-- Nothing is found behind the first character of a word. -/
theorem rewritten_rest_of_word {word : Text} (path : ∀ c ∈ word, isPathChar c = true) :
    ∀ {c : Char}, isPathChar c = true →
      Rewritten spellingAt (c :: word).getLast? text result →
      Rewritten spellingAt (some c) (word ++ text) (word ++ result) := by
  induction word with
  | nil => exact fun _ rest => rest
  | cons d word ih =>
    intro c before rest
    rw [getLast?_cons_cons] at rest
    refine .plain (spellingAt_of_absent (keywordAt?_of_path before _)) ?_
    exact ih (forall_mem_cons.mp path).2
      (path d mem_cons_self) rest

theorem Worded.rewritten (worded : Worded text result) :
    ∀ {before : Option Char},
      (before.any isPathChar = true → ∀ c ∈ text.head?, isPathChar c = false) →
      Rewritten spellingAt before text result := by
  have behind : ∀ {word text : Text} {before : Option Char}, WholeWord word text →
      before.any isPathChar = true → ∀ c ∈ text.head?, isPathChar c = false :=
    fun whole _ => whole.ends
  have apart : ∀ {word text : Text} {before : Option Char}, WholeWord word text →
      (before.any isPathChar = true → ∀ c ∈ (word ++ text).head?, isPathChar c = false) →
      before.any isPathChar = false := by
    intro word text before whole separate
    cases joined : before.any isPathChar with
    | false => rfl
    | true => exact absurd (separate joined) whole.not_ends
  induction worded with
  | nil => exact fun _ => .nil _
  | other other rest ih =>
    intro before separate
    refine .plain (spellingAt_of_absent (keywordAt?_of_other other _)) (ih ?_)
    simp [other]
  | @phrase first gap second text result completes rest ih =>
    intro before separate
    have whole := completes.wholeWord
    have found := spellingAt_of_keyword before (first ++ (gap ++ second)) text (by
      simpa using keywordAt?_of_completes (apart whole separate) completes)
    have squeezed : squeezeBlanks (first ++ (gap ++ second)) = first ++ ' ' :: second := by
      rw [squeezeBlanks_append_of_solid whole.solid,
        squeezeBlanks_gap completes.occupied completes.blank completes.whole.solid]
    have written : upper first ++ (' ' :: (upper second ++ result)) =
        upper (squeezeBlanks (first ++ (gap ++ second))) ++ result := by
      rw [squeezed]
      simp [upper, upperChar]
    rw [written, ← append_assoc, ← append_assoc, append_assoc first]
    refine .found (by simp [whole.occupied]) found (ih (behind completes.whole))
  | @keyword word text result whole alone known rest ih =>
    intro before separate
    have found := spellingAt_of_keyword before word text (by
      rw [keywordAt?_of_alone (apart whole separate) whole alone]
      exact (findSome?_wordKeywords whole).mpr ⟨known, rfl⟩)
    rw [squeezeBlanks_of_solid whole.solid] at found
    exact .found whole.occupied found (ih (behind whole))
  | @word word text result whole alone unknown rest ih =>
    intro before separate
    have absent : keywordAt? before (word ++ text) = none := by
      rw [keywordAt?_of_alone (apart whole separate) whole alone]
      cases found : wordKeywords.findSome? fun keyword => reach? (word ++ text) [keyword] with
      | none => rfl
      | some taken => exact absurd ((findSome?_wordKeywords whole).mp found).1 unknown
    obtain ⟨c, later, rfl⟩ := exists_cons_of_ne_nil whole.occupied
    refine .plain (spellingAt_of_absent absent) ?_
    exact rewritten_rest_of_word (forall_mem_cons.mp whole.path).2
      (whole.path c mem_cons_self) (ih (behind whole))

theorem progresses_spellingAt : Progresses spellingAt := by
  intro before text replacement taken found
  obtain ⟨reach, keyword, same⟩ := Option.map_eq_some_iff.mp found
  obtain ⟨-, rfl⟩ := Prod.mk.inj same
  obtain ⟨word, rest, rfl, whole, ⟨gap, second, tail, completes, rfl⟩ | ⟨-, rfl⟩⟩ :=
    exists_of_keywordAt? keyword
  all_goals have occupied := length_pos_iff.mpr whole.occupied
  · have rest_eq := congrArg List.length completes.rest_eq
    simp only [length_append] at rest_eq ⊢
    omega
  · simp only [length_append]
    omega

theorem Worded.spellKeywords_eq (worded : Worded text result) : spellKeywords text = result :=
  substitute_eq progresses_spellingAt (worded.rewritten (by simp))

theorem worded_spellKeywords (text : Text) : Worded text (spellKeywords text) := by
  obtain ⟨result, worded⟩ := exists_worded text
  rwa [worded.spellKeywords_eq]

theorem IsKeyword.letters {word : Text} (known : IsKeyword word) : ∀ c ∈ word, c ∈ caseForms := by
  obtain ⟨keyword, member, spells⟩ := known
  exact spells.mem_caseForms (lower_wordKeywords keyword member).2

theorem IsPhrase.lower (known : IsPhrase first second) :
    ∃ lead last, [lead, last] ∈ phraseKeywords ∧ Spells lead first ∧ Spells last second ∧
      (∀ letter ∈ lead, letter ∈ lowerLetters) ∧ ∀ letter ∈ last, letter ∈ lowerLetters := by
  obtain ⟨lead, last, member, spells, spellsLast⟩ := known
  obtain ⟨_, _, same, ⟨-, lower⟩, -, lowerLast⟩ := lower_phraseKeywords _ member
  obtain ⟨rfl, rfl⟩ : lead = _ ∧ last = _ := by simpa using same
  exact ⟨lead, last, member, spells, spellsLast, lower, lowerLast⟩

theorem IsPhrase.letters (known : IsPhrase first second) :
    (∀ c ∈ first, c ∈ caseForms) ∧ ∀ c ∈ second, c ∈ caseForms := by
  obtain ⟨lead, last, -, spells, spellsLast, lower, lowerLast⟩ := known.lower
  exact ⟨spells.mem_caseForms lower, spellsLast.mem_caseForms lowerLast⟩

@[simp] theorem upper_append (first second : Text) :
    upper (first ++ second) = upper first ++ upper second :=
  flatMap_append

theorem spell_eq (text : Text) : spell text = tidy (spellKeywords text) :=
  rfl

end LookML.Sql
