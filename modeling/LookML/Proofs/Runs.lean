import LookML.Proofs.Respelling
import Mathlib.Data.List.SplitBy

/-!
# Spelling run by run

A text falls into runs of path characters, of operator characters and of all others.
Spelling looks at each run with the runs around it: a word goes into upper case when it
is a keyword or one of two words that are a keyword together, blanks between two such
words become one space, and an operator gets a space on each side.
-/

namespace LookML

open List

namespace Text

/-- What holds of no runs, and of runs with one more before them, holds of the runs of every
text. -/
theorem splitBy_induction {r : Char → Char → Bool} {motive : List Text → Prop} (nil : motive [])
    (cons : ∀ (run : Text) (behind : List Text), run ≠ [] →
      run.IsChain (fun c d => r c d = true) →
      (∀ c ∈ run.getLast?, ∀ d ∈ behind.flatten.head?, r c d = false) →
      motive behind → motive (run :: behind))
    (text : Text) : motive (text.splitBy r) := by
  have occupied := nil_notMem_splitBy r text
  have chains : ∀ run ∈ text.splitBy r, run.IsChain fun c d => r c d = true :=
    fun _ => isChain_of_mem_splitBy
  have apart := isChain_getLast_head_splitBy r text
  generalize text.splitBy r = texts at occupied chains apart
  induction texts with
  | nil => exact nil
  | cons run behind ih =>
    rw [mem_cons, not_or, eq_comm] at occupied
    refine cons run behind occupied.1 (chains run mem_cons_self) ?_ ?_
    · intro c last d head
      cases behind with
      | nil => cases head
      | cons next later =>
        obtain ⟨_, occupiedNext, differ⟩ := apart.rel
        obtain ⟨e, more, rfl⟩ := exists_cons_of_ne_nil occupiedNext
        cases head
        rwa [getLast_of_mem_getLast? last] at differ
    · exact ih occupied.2 (forall_mem_cons.mp chains).2
        apart.tail

end Text

namespace Sql

open Text

variable {first second run gap rest : Text} {c : Char} {texts : List Text}

/-- The kinds of characters that spelling tells apart. -/
inductive Kind
  | word
  | operator
  | other
  deriving Repr, DecidableEq

def kindOf (c : Char) : Kind :=
  if isPathChar c then .word else if isOperatorChar c then .operator else .other

/-- The longest pieces of a text whose characters are of one kind, in order. -/
def runs (text : Text) : List Text :=
  text.splitBy fun c d => kindOf c == kindOf d

@[simp] theorem flatten_runs (text : Text) : (runs text).flatten = text :=
  flatten_splitBy _ text

/-- The kind of the characters of a run. -/
def runKind (run : Text) : Kind :=
  run.head?.elim .other kindOf

section Decisions

instance decidableSpells (word text : Text) : Decidable (Spells word text) :=
  decidable_of_iff (afterWord? word text = some []) (by simp [afterWord?_eq_some_iff])

instance decidableIsKeyword (word : Text) : Decidable (IsKeyword word) :=
  inferInstanceAs (Decidable (∃ keyword ∈ wordKeywords, Spells keyword word))

theorem isPhrase_iff :
    (∃ phrase ∈ phraseKeywords,
      Spells (phrase.headD []) first ∧ Spells (phrase.getLastD []) second) ↔
      IsPhrase first second := by
  constructor
  · rintro ⟨phrase, member, spells, spellsLast⟩
    obtain ⟨lead, last, rfl, -⟩ := lower_phraseKeywords phrase member
    exact ⟨lead, last, member, spells, spellsLast⟩
  · rintro ⟨lead, last, member, spells, spellsLast⟩
    exact ⟨[lead, last], member, spells, spellsLast⟩

instance decidableIsPhrase (first second : Text) : Decidable (IsPhrase first second) :=
  decidable_of_iff _ isPhrase_iff

end Decisions

/-- Whether two words are a keyword together and only blanks separate them. -/
def isPair (first gap second : Text) : Bool :=
  allBlank gap && decide (IsPhrase first second)

/-- Whether the run before a place begins a pair that goes on there.  The runs before the
place are listed from the nearest on. -/
def pairOpens : List Text → List Text → Bool
  | first :: _, gap :: second :: _ => isPair first gap second
  | _, _ => false

/-- Whether the run behind a place ends a pair that began before it. -/
def pairCloses : List Text → List Text → Bool
  | gap :: first :: _, second :: _ => isPair first gap second
  | _, _ => false

/-- The spelling of a run between the runs before it, the nearest first, and those behind. -/
def spellRun (before : List Text) (run : Text) (behind : List Text) : Text :=
  match runKind run with
  | .word =>
    if IsKeyword run ∨ pairOpens (run :: before) behind ∨ pairCloses before (run :: behind) then
      upper run
    else run
  | .operator =>
    if run ∈ operators ∧ before.head?.bind List.getLast? ≠ some '-' then ' ' :: (run ++ [' '])
    else run
  | .other => if pairOpens before (run :: behind) then [' '] else run

def spellRuns (before : List Text) : List Text → Text
  | [] => []
  | run :: behind => spellRun before run behind ++ spellRuns (run :: before) behind

/-- The text with every run of spaces cut to one. -/
def singleSpaces (text : Text) : Text :=
  (text.splitBy fun c d => c == ' ' && d == ' ').filterMap List.head?

section Kinds

theorem kindOf_eq_word : kindOf c = .word ↔ isPathChar c = true := by
  unfold kindOf
  split
  next path => simp [path]
  next other => split <;> simp [other]

theorem kindOf_eq_operator : kindOf c = .operator ↔ isOperatorChar c = true := by
  unfold kindOf
  split
  next path => simp [isOperatorChar_of_free (free_of_isPathChar path).1]
  next => split <;> simp_all

theorem kindOf_of_isBlank (blank : isBlank c = true) : kindOf c = .other := by
  have operator : isOperatorChar c = false := by
    cases operator : isOperatorChar c with
    | false => rfl
    | true =>
      simp only [isOperatorChar, Bool.or_eq_true, beq_iff_eq] at operator
      rcases operator with ((rfl | rfl) | rfl) | rfl <;> cases blank
  simp [kindOf, isPathChar_of_isBlank blank, operator]

theorem runKind_eq {kind : Kind} (occupied : run ≠ [])
    (uniform : ∀ c ∈ run, kindOf c = kind) : runKind run = kind := by
  obtain ⟨c, later, rfl⟩ := exists_cons_of_ne_nil occupied
  exact uniform c mem_cons_self

theorem runKind_of_allBlank (blank : allBlank gap = true) : runKind gap = .other := by
  cases gap with
  | nil => rfl
  | cons c gap => exact kindOf_of_isBlank (allBlank_iff.mp blank c mem_cons_self)

theorem WholeWord.runKind_eq {word : Text} (whole : WholeWord word rest) : runKind word = .word :=
  Sql.runKind_eq whole.occupied fun c member => kindOf_eq_word.mpr (whole.path c member)

end Kinds

section Parted

/-- Runs of characters of one kind, each of another kind than the one before it. -/
inductive Parted : List Text → Prop
  | nil : Parted []
  | cons {run : Text} {behind : List Text} (occupied : run ≠ [])
      (uniform : ∀ c ∈ run, kindOf c = runKind run)
      (ends : ∀ c ∈ behind.flatten.head?, kindOf c ≠ runKind run) (rest : Parted behind) :
      Parted (run :: behind)

theorem uniform_of_isChain (chain : run.IsChain fun c d => (kindOf c == kindOf d) = true) :
    ∀ c ∈ run, kindOf c = runKind run := by
  induction run with
  | nil => exact fun _ member => absurd member not_mem_nil
  | cons c run ih =>
    intro d member
    rcases mem_cons.mp member with rfl | member
    · rfl
    · rw [ih chain.tail d member]
      cases run with
      | nil => exact absurd member not_mem_nil
      | cons e run => exact (beq_iff_eq.mp chain.rel).symm

theorem parted_runs (text : Text) : Parted (runs text) := by
  apply splitBy_induction .nil
  intro run behind occupied chain apart rest
  have uniform := uniform_of_isChain chain
  refine .cons occupied uniform ?_ rest
  intro d head same
  have last := getLast?_eq_some_getLast occupied
  have differ := apart _ last d head
  rw [uniform _ (mem_of_getLast? last), same, beq_self_eq_true] at differ
  cases differ

/-- A run that stands at the front of a text is the first of its runs. -/
theorem Parted.exists_behind (parted : Parted texts)
    (occupied : run ≠ []) (uniform : ∀ c ∈ run, kindOf c = runKind run)
    (ends : ∀ c ∈ rest.head?, kindOf c ≠ runKind run) (same : texts.flatten = run ++ rest) :
    ∃ behind, texts = run :: behind ∧ Parted behind ∧ behind.flatten = rest := by
  cases parted with
  | nil => exact absurd (append_eq_nil_iff.mp same.symm).1 occupied
  | @cons first behind occupiedFirst uniformFirst endsFirst restFirst =>
    rw [flatten_cons] at same
    have kinds : runKind first = runKind run := by
      obtain ⟨c, more, rfl⟩ := exists_cons_of_ne_nil occupied
      obtain ⟨d, others, rfl⟩ := exists_cons_of_ne_nil occupiedFirst
      exact congrArg kindOf (cons.inj same).1
    rw [kinds] at uniformFirst endsFirst
    have taken := congrArg (List.takeWhile fun c => kindOf c == runKind run) same
    rw [takeWhile_append_of_head, takeWhile_append_of_head] at taken
    · subst taken
      exact ⟨behind, rfl, restFirst, append_cancel_left same⟩
    · simpa using uniform
    · simpa using ends
    · simpa using uniformFirst
    · simpa using endsFirst

end Parted

section Pairs

theorem isPair_iff :
    isPair first gap second = true ↔ allBlank gap = true ∧ IsPhrase first second := by
  simp [isPair]

theorem IsPhrase.runKind_eq (phrase : IsPhrase first second) : runKind first = .word := by
  have whole : WholeWord first [] := phrase.wholeWord (by simp)
  exact whole.runKind_eq

/-- A character matches one letter only. -/
theorem letter_unique : ∀ c ∈ caseForms, ∀ letter ∈ lowerLetters, matchesLetter letter c = true →
    ∀ other ∈ lowerLetters, matchesLetter other c = true → letter = other := by
  decide +kernel

theorem spells_unique {word other text : Text} (lower : ∀ letter ∈ word, letter ∈ lowerLetters)
    (lowerOther : ∀ letter ∈ other, letter ∈ lowerLetters) (spells : Spells word text)
    (again : Spells other text) : word = other := by
  induction spells generalizing other with
  | nil => exact (forall₂_nil_right_iff.mp again).symm
  | @cons letter c word text matched _ ih =>
    obtain ⟨another, rest, matchedOther, spellsRest, rfl⟩ := forall₂_cons_right_iff.mp again
    have known := lower letter mem_cons_self
    obtain rfl := letter_unique c (mem_caseForms known matched) letter known matched another
      (lowerOther another mem_cons_self) matchedOther
    rw [ih (forall_mem_cons.mp lower).2
      (forall_mem_cons.mp lowerOther).2 spellsRest]

/-- No word both ends a keyword of two words and begins one. -/
theorem IsPhrase.not_isPhrase {third : Text} (phrase : IsPhrase first second) :
    ¬ IsPhrase second third := by
  intro next
  obtain ⟨lead, last, member, -, spellsLast, -, lowerLast⟩ := phrase.lower
  obtain ⟨other, _, memberOther, spellsLead, -, lowerLead, -⟩ := next.lower
  have each : ∀ phrase ∈ phraseKeywords, ∀ other ∈ phraseKeywords,
      phrase.getLast? ≠ other.head? := by
    decide
  refine each _ member _ memberOther ?_
  exact congrArg some (spells_unique lowerLast lowerLead spellsLast spellsLead)

variable (before behind : List Text)

theorem pairCloses_cons : pairCloses (run :: before) behind = pairOpens before (run :: behind) := by
  cases before <;> cases behind <;> rfl

theorem exists_of_pairOpens {before behind : List Text}
    (opens : pairOpens (run :: before) behind = true) :
    ∃ gap second later, behind = gap :: second :: later ∧ isPair run gap second = true := by
  rcases behind with - | ⟨gap, - | ⟨second, later⟩⟩
  · cases opens
  · cases opens
  · exact ⟨gap, second, later, rfl, opens⟩

/-- Only a word begins a pair. -/
theorem pairOpens_of_other (other : runKind run ≠ .word) :
    pairOpens (run :: before) behind = false := by
  rw [Bool.eq_false_iff]
  intro opens
  obtain ⟨gap, second, later, -, pair⟩ := exists_of_pairOpens opens
  exact other (isPair_iff.mp pair).2.runKind_eq

/-- No pair reaches across a word. -/
theorem pairCloses_of_word (word : runKind run = .word) :
    pairCloses (run :: before) behind = false := by
  rw [pairCloses_cons]
  rcases before with - | ⟨first, earlier⟩
  · rfl
  · rw [Bool.eq_false_iff]
    intro opens
    obtain ⟨gap, second, later, same, pair⟩ := exists_of_pairOpens opens
    obtain ⟨rfl, -⟩ := cons.inj same
    rw [runKind_of_allBlank (isPair_iff.mp pair).1] at word
    cases word

end Pairs

section Words

/-- A run as it is before spaces are written around operators. -/
def wordRun (before : List Text) (run : Text) (behind : List Text) : Text :=
  if runKind run = .operator then run else spellRun before run behind

def wordRuns (before : List Text) : List Text → Text
  | [] => []
  | run :: behind => wordRun before run behind ++ wordRuns (run :: before) behind

variable {before behind : List Text}

theorem wordRun_of_word (word : runKind run = .word) :
    wordRun before run behind =
      if IsKeyword run ∨ pairOpens (run :: before) behind ∨ pairCloses before (run :: behind) then
        upper run
      else run := by
  simp [wordRun, spellRun, word]

theorem wordRun_of_gap (gap : runKind run = .other) :
    wordRun before run behind = if pairOpens before (run :: behind) then [' '] else run := by
  simp [wordRun, spellRun, gap]

theorem wordRun_of_apart (other : runKind run ≠ .word)
    (opens : pairOpens before (run :: behind) = false) : wordRun before run behind = run := by
  cases kind : runKind run with
  | word => exact absurd kind other
  | operator => simp [wordRun, kind]
  | other => simp [wordRun_of_gap kind, opens]

/-- The word that completes another one is the second run behind it. -/
theorem Parted.exists_of_completes (parted : Parted behind) {tail : Text}
    (completes : Completes run behind.flatten gap second tail) :
    ∃ later, behind = gap :: second :: later := by
  have gapKind := runKind_of_allBlank completes.blank
  have secondKind := completes.whole.runKind_eq
  obtain ⟨rest, rfl, partedRest, same⟩ := parted.exists_behind completes.occupied
    (fun c member => by
      rw [gapKind]
      exact kindOf_of_isBlank (allBlank_iff.mp completes.blank c member))
    (fun c head => by
      rw [gapKind, kindOf_eq_word.mpr (head?_of_wholeWord completes.whole c head)]
      decide)
    completes.rest_eq
  obtain ⟨later, rfl, -⟩ := partedRest.exists_behind completes.whole.occupied
    (fun c member => by rw [secondKind, kindOf_eq_word.mpr (completes.whole.path c member)])
    (fun c head => by
      rw [secondKind, Ne, kindOf_eq_word, completes.whole.ends c head]
      decide)
    same
  exact ⟨later, rfl⟩

theorem wholeWord_of_parted (occupied : run ≠ []) (uniform : ∀ c ∈ run, kindOf c = runKind run)
    (ends : ∀ c ∈ behind.flatten.head?, kindOf c ≠ runKind run) (word : runKind run = .word) :
    WholeWord run behind.flatten where
  occupied := occupied
  path c member := kindOf_eq_word.mp ((uniform c member).trans word)
  ends c head := by
    rw [← Bool.not_eq_true, ← kindOf_eq_word, ← word]
    exact ends c head

theorem wordRuns_of_pair {later : List Text} (word : runKind run = .word)
    (wordSecond : runKind second = .word) (pair : isPair run gap second = true) :
    wordRuns before (run :: gap :: second :: later) =
      upper run ++ (' ' :: (upper second ++ wordRuns (second :: gap :: run :: before) later)) := by
  have opens : pairOpens (run :: before) (gap :: second :: later) = true := pair
  have closes : pairCloses (gap :: run :: before) (second :: later) = true := pair
  have kind := runKind_of_allBlank (isPair_iff.mp pair).1
  rw [wordRuns, wordRuns, wordRuns, wordRun_of_word word, wordRun_of_gap kind,
    wordRun_of_word wordSecond]
  simp only [opens, closes, true_or, or_true, if_true, singleton_append]

theorem pairOpens_of_pair (pair : isPair first gap run = true) :
    pairOpens (run :: before) behind = false := by
  rw [Bool.eq_false_iff]
  intro opens
  obtain ⟨_, third, later, -, next⟩ := exists_of_pairOpens opens
  exact (isPair_iff.mp pair).2.not_isPhrase (isPair_iff.mp next).2

theorem worded_wordRuns : ∀ {texts before : List Text}, Parted texts →
    pairOpens before texts = false → pairCloses before texts = false →
    Worded texts.flatten (wordRuns before texts)
  | [], _, _, _, _ => .nil
  | run :: behind, before, .cons occupied uniform ends parted, opens, closes => by
      by_cases word : runKind run = .word
      · have whole := wholeWord_of_parted occupied uniform ends word
        cases joins : pairOpens (run :: before) behind with
        | true =>
          -- The pair takes three runs at once.
          obtain ⟨gap, second, later, rfl, pair⟩ := exists_of_pairOpens joins
          obtain ⟨blank, phrase⟩ := isPair_iff.mp pair
          obtain - | ⟨occupiedGap, -, -, - | ⟨occupiedSecond, uniformSecond, endsSecond, rest⟩⟩ :=
            parted
          have wordSecond : runKind second = .word := runKind_eq occupiedSecond fun c member =>
            kindOf_eq_word.mpr (isPathChar_of_mem_caseForms (phrase.letters.2 c member))
          have wholeSecond :=
            wholeWord_of_parted occupiedSecond uniformSecond endsSecond wordSecond
          rw [wordRuns_of_pair word wordSecond pair]
          exact .phrase ⟨rfl, occupiedGap, blank, wholeSecond, phrase⟩
            (worded_wordRuns rest (pairOpens_of_pair pair) (pairCloses_of_word _ _ wordSecond))
        | false =>
          have rest := worded_wordRuns parted joins (pairCloses_of_word before behind word)
          have alone : ∀ gap second tail, ¬ Completes run behind.flatten gap second tail := by
            intro gap second tail completes
            obtain ⟨later, rfl⟩ := parted.exists_of_completes completes
            rw [pairOpens, isPair, completes.blank, decide_eq_true completes.phrase] at joins
            cases joins
          rw [wordRuns, wordRun_of_word word, joins, closes]
          by_cases known : IsKeyword run
          · simp only [known, true_or, if_true]
            exact .keyword whole alone known rest
          · simp only [known, Bool.false_eq_true, or_self, if_false]
            exact .word whole alone known rest
      · rw [wordRuns, wordRun_of_apart word opens]
        apply worded_append_of_apart
        · intro c member
          rw [← Bool.not_eq_true, ← kindOf_eq_word, uniform c member]
          exact word
        · apply worded_wordRuns parted (pairOpens_of_other before behind word)
          rw [pairCloses_cons, opens]
  termination_by texts => texts.length

/-- What goes into upper case is made of letters. -/
theorem letters_of_upper
    (changed : IsKeyword run ∨ pairOpens (run :: before) behind ∨
      pairCloses before (run :: behind)) :
    ∀ c ∈ run, c ∈ caseForms := by
  rcases changed with known | opens | closes
  · exact known.letters
  · obtain ⟨gap, second, later, -, pair⟩ := exists_of_pairOpens opens
    exact (isPair_iff.mp pair).2.letters.1
  · rcases before with - | ⟨gap, - | ⟨first, earlier⟩⟩
    · cases closes
    · cases closes
    · exact (isPair_iff.mp closes).2.letters.2

theorem uniform_wordRun (uniform : ∀ c ∈ run, kindOf c = runKind run) :
    ∀ c ∈ wordRun before run behind, kindOf c = runKind run := by
  cases kind : runKind run with
  | word =>
    rw [wordRun_of_word kind]
    split
    next changed =>
      intro c member
      exact kindOf_eq_word.mpr
        (isPathChar_of_mem_caseForms (mem_caseForms_upper (letters_of_upper changed) c member))
    next => rwa [← kind]
  | operator =>
    rw [wordRun, if_pos kind, ← kind]
    exact uniform
  | other =>
    rw [wordRun_of_gap kind]
    split
    · intro c member
      rw [mem_singleton.mp member]
      decide
    · rwa [← kind]

theorem occupied_wordRun (occupied : run ≠ []) : wordRun before run behind ≠ [] := by
  cases kind : runKind run with
  | word =>
    rw [wordRun_of_word kind]
    split
    next changed =>
      have letters := letters_of_upper changed
      obtain ⟨c, later, rfl⟩ := exists_cons_of_ne_nil occupied
      obtain ⟨u, -, same, -⟩ := upperChar_of_mem_caseForms c (letters c mem_cons_self)
      simp [upper, same]
    next => exact occupied
  | operator => rwa [wordRun, if_pos kind]
  | other =>
    rw [wordRun_of_gap kind]
    split
    · exact cons_ne_nil _ _
    · exact occupied

theorem getLast?_wordRun (uniform : ∀ c ∈ run, kindOf c = runKind run) :
    (wordRun before run behind).getLast? = some '-' ↔ run.getLast? = some '-' := by
  cases kind : runKind run with
  | word =>
    have apart {text : Text} (path : ∀ c ∈ text, kindOf c = runKind run) :
        text.getLast? ≠ some '-' := by
      intro last
      have word := (path '-' (mem_of_getLast? last)).trans kind
      cases word
    exact iff_of_false (apart (uniform_wordRun uniform)) (apart uniform)
  | operator => rw [wordRun, if_pos kind]
  | other =>
    rw [wordRun_of_gap kind]
    split
    next opens =>
      rcases before with - | ⟨first, earlier⟩
      · cases opens
      obtain ⟨gap, second, later, same, pair⟩ := exists_of_pairOpens opens
      obtain ⟨rfl, -⟩ := cons.inj same
      refine iff_of_false (by decide) fun last => ?_
      have blank := allBlank_iff.mp (isPair_iff.mp pair).1 '-' (mem_of_getLast? last)
      cases blank
    · rfl

theorem head?_wordRuns (parted : Parted texts) :
    ∀ c ∈ (wordRuns before texts).head?, ∃ d ∈ texts.flatten.head?, kindOf c = kindOf d := by
  cases parted with
  | nil => exact fun c head => absurd head (Option.not_mem_none c)
  | @cons run behind occupied uniform _ _ =>
    intro c head
    obtain ⟨d, more, rfl⟩ := exists_cons_of_ne_nil occupied
    refine ⟨d, rfl, ?_⟩
    rw [wordRuns, head?_append_of_ne_nil _ (occupied_wordRun occupied)] at head
    exact uniform_wordRun uniform c (mem_of_head? head)

end Words

section Spaced

variable {previous : Option Char}

variable {text result : Text}

theorem getLast?_or {lead : Text} (occupied : lead ≠ []) (previous : Option Char) :
    lead.getLast?.or previous = lead.getLast? := by
  rw [getLast?_eq_some_getLast occupied, Option.some_or]

theorem spaced_append_of_plain {lead : Text} (plain : ∀ c ∈ lead, isOperatorChar c = false)
    (rest : Rewritten spacingAt (lead.getLast?.or previous) text result) :
    Rewritten spacingAt previous (lead ++ text) (lead ++ result) := by
  induction lead generalizing previous with
  | nil => exact rest
  | cons c lead ih =>
    rw [getLast?_cons_or] at rest
    refine .plain (spacingAt_of_head ?_ previous)
      (ih (forall_mem_cons.mp plain).2 rest)
    rintro d ⟨⟩
    exact plain c mem_cons_self

/-- A run of operator characters stays as it is when it is no operator or when something
before it forbids one. -/
theorem spaced_append_of_kept (solely : ∀ c ∈ run, isOperatorChar c = true)
    (ends : ∀ c ∈ text.head?, isOperatorChar c = false)
    (kept : previous.any blocksOperator = true ∨ run ∉ operators)
    (rest : Rewritten spacingAt (run.getLast?.or previous) text result) :
    Rewritten spacingAt previous (run ++ text) (run ++ result) := by
  induction run generalizing previous with
  | nil => exact rest
  | cons c run ih =>
    have taken := takeWhile_append_of_head solely ends
    rw [getLast?_cons_or] at rest
    rw [cons_append]
    have later : ∀ d ∈ run, isOperatorChar d = true := fun d member =>
      solely d (mem_cons_of_mem _ member)
    refine .plain ?_ (ih later (.inl ?_) rest)
    · have absent : ¬ (previous.any blocksOperator = false ∧ c :: run ∈ operators) := by
        rcases kept with blocked | unknown
        · simp [blocked]
        · exact fun present => unknown present.2
      rw [spacingAt, operatorAt?_eq, ← cons_append, taken, if_neg absent, Option.map_none]
    · simp [blocksOperator, solely c mem_cons_self]

theorem any_blocksOperator {text : Text} (plain : ∀ c ∈ text, isOperatorChar c = false) :
    text.getLast?.any blocksOperator = true ↔ text.getLast? = some '-' := by
  cases last : text.getLast? with
  | none => simp
  | some c => simp [blocksOperator, plain c (mem_of_getLast? last)]

/-- A run of operator characters gets its spaces or stays, by what stands before it. -/
theorem spaced_append_of_operator {before behind : List Text}
    (operator : runKind run = .operator) (occupied : run ≠ [])
    (solely : ∀ c ∈ run, isOperatorChar c = true)
    (ends : ∀ c ∈ text.head?, isOperatorChar c = false)
    (hyphen : previous.any blocksOperator = true ↔ before.head?.bind List.getLast? = some '-')
    (rest : Rewritten spacingAt run.getLast? text result) :
    Rewritten spacingAt previous (run ++ text) (spellRun before run behind ++ result) := by
  simp only [spellRun, operator]
  split
  next spaced =>
    refine .found occupied (spacingAt_of_operators spaced.1 ?_ ends) rest
    rw [← Bool.not_eq_true, hyphen]
    exact spaced.2
  next kept =>
    apply spaced_append_of_kept solely ends
    · rw [hyphen]
      by_contra other
      rw [not_or, not_not] at other
      exact kept ⟨other.2, other.1⟩
    · rw [getLast?_or occupied]
      exact rest

/-- Spaces are written around operators run by run.  What stands before an operator is a
hyphen in the text as it was when it is one in the text with its keywords spelled. -/
theorem spaced_wordRuns {before : List Text} (parted : Parted texts)
    (hyphen : ∀ c ∈ texts.flatten.head?, kindOf c = .operator →
      (previous.any blocksOperator = true ↔ before.head?.bind List.getLast? = some '-')) :
    Rewritten spacingAt previous (wordRuns before texts) (spellRuns before texts) := by
  induction parted generalizing before previous with
  | nil => exact .nil previous
  | @cons run behind occupied uniform ends parted ih =>
    rw [wordRuns, spellRuns]
    by_cases operator : runKind run = .operator
    · rw [wordRun, if_pos operator]
      apply spaced_append_of_operator operator occupied
      · intro c member
        exact kindOf_eq_operator.mp ((uniform c member).trans operator)
      · intro c head
        obtain ⟨d, first, same⟩ := head?_wordRuns parted c head
        rw [← Bool.not_eq_true, ← kindOf_eq_operator, same, ← operator]
        exact ends d first
      · obtain ⟨c, more, rfl⟩ := exists_cons_of_ne_nil occupied
        exact hyphen c rfl operator
      · apply ih
        intro c head again
        exact absurd (again.trans operator.symm) (ends c head)
    · have same : wordRun before run behind = spellRun before run behind := if_neg operator
      have plain : ∀ c ∈ wordRun before run behind, isOperatorChar c = false := by
        intro c member
        rw [← Bool.not_eq_true, ← kindOf_eq_operator, uniform_wordRun uniform c member]
        exact operator
      rw [← same]
      apply spaced_append_of_plain plain
      rw [getLast?_or (occupied_wordRun occupied)]
      apply ih
      intro c _ _
      rw [any_blocksOperator plain, getLast?_wordRun uniform]
      rfl

end Spaced

section Squeezed

theorem squeezeSpaces_run (solely : ∀ c ∈ run, c = ' ') (ends : ∀ c ∈ rest.head?, c ≠ ' ') :
    squeezeSpaces (' ' :: (run ++ rest)) = ' ' :: squeezeSpaces rest := by
  induction run with
  | nil =>
    have apart : rest.head? ≠ some ' ' := fun head => ends ' ' head rfl
    simp [squeezeSpaces_cons, pressSpace, head?_squeezeSpaces, apart]
  | cons c run ih =>
    obtain rfl := solely c mem_cons_self
    rw [cons_append, squeezeSpaces_twice]
    exact ih (forall_mem_cons.mp solely).2

theorem solely_of_isChain
    (chain : (c :: run).IsChain fun c d => (c == ' ' && d == ' ') = true) : ∀ d ∈ run, d = ' ' := by
  induction run generalizing c with
  | nil => exact fun _ member => absurd member not_mem_nil
  | cons d run ih =>
    exact forall_mem_cons.mpr
      ⟨beq_iff_eq.mp (Bool.and_eq_true_iff.mp chain.rel).2, ih chain.tail⟩

theorem squeezeSpaces_flatten (text : Text) :
    squeezeSpaces (text.splitBy fun c d => c == ' ' && d == ' ').flatten = singleSpaces text := by
  apply splitBy_induction (motive := fun texts =>
    squeezeSpaces texts.flatten = texts.filterMap List.head?) rfl
  intro run behind occupied chain apart rest
  obtain ⟨c, more, rfl⟩ := exists_cons_of_ne_nil occupied
  have solely := solely_of_isChain chain
  rw [flatten_cons, filterMap_cons, head?_cons, ← rest, cons_append]
  by_cases space : c = ' '
  · subst space
    apply squeezeSpaces_run solely
    rintro d head rfl
    have last := getLast?_eq_some_getLast occupied
    have blank : (' ' :: more).getLast occupied = ' ' := by
      rcases mem_cons.mp (getLast_mem occupied) with same | member
      · exact same
      · exact solely _ member
    have differ := apart _ last ' ' head
    rw [blank] at differ
    cases differ
  · cases more with
    | nil => exact (squeezeSpaces_cons _ _).trans (pressSpace_of_ne space _)
    | cons d more => exact absurd (beq_iff_eq.mp (Bool.and_eq_true_iff.mp chain.rel).1) space

theorem squeezeSpaces_eq (text : Text) : squeezeSpaces text = singleSpaces text := by
  rw [← squeezeSpaces_flatten, flatten_splitBy]

end Squeezed

/-- The spelling of a text is put together from the spellings of its runs, each between its
neighbours, with single spaces at the end. -/
theorem spell_eq_spellRuns (text : Text) :
    spell text = singleSpaces (spellRuns [] (runs text)) := by
  have worded : Worded (runs text).flatten (wordRuns [] (runs text)) :=
    worded_wordRuns (parted_runs text) rfl rfl
  have spaced : Rewritten spacingAt none (wordRuns [] (runs text)) (spellRuns [] (runs text)) :=
    spaced_wordRuns (parted_runs text) (by simp)
  rw [flatten_runs] at worded
  rw [spell, worded.spellKeywords_eq, spaceOperators_eq spaced, squeezeSpaces_eq]

example :
    spellRuns [] (runs "left\t join b.on on x<=y->z".toList) =
      "LEFT JOIN b.on ON x <= y->z".toList := by
  decide +kernel

end Sql

end LookML
