import LookML.Proofs.Blank
import LookML.Proofs.Cuts
import LookML.Proofs.Rewriting
import LookML.Sql.Spelling

/-!
# Operators between spaces

An operator is a whole run of operator characters.  Writing spaces around operators
and squeezing runs of spaces changes blanks only, and doing it again changes
nothing.
-/

namespace LookML.Sql

open Text List

variable {text first result : Text} {before : Option Char} {c : Char}

/-- Characters behind which no operator begins. -/
def blocksOperator (c : Char) : Bool :=
  isOperatorChar c || c == '-'

theorem operatorChars_operators :
    ∀ operator ∈ operators, operator ≠ [] ∧ ∀ c ∈ operator, isOperatorChar c = true := by
  decide

/-- An operator stands at the front of a text, with no operator character behind it, if it is
all the operator characters there. -/
theorem endsOperator_iff {operator : Text} (member : operator ∈ operators) (text : Text) :
    (match after? operator text with
      | some rest => !rest.head?.any isOperatorChar
      | none => false) = true ↔ text.takeWhile isOperatorChar = operator := by
  obtain ⟨-, all⟩ := operatorChars_operators operator member
  constructor
  · intro found
    split at found
    next rest follows =>
      rw [after?_eq_some_iff.mp follows]
      simp only [Bool.not_eq_true', Option.any_eq_false] at found
      exact takeWhile_append_of_head all found
    next => cases found
  · rintro rfl
    have cut : text = text.takeWhile isOperatorChar ++ text.dropWhile isOperatorChar :=
      takeWhile_append_dropWhile.symm
    rw [after?_eq_some_iff.mpr cut]
    simp only [Bool.not_eq_true', Option.any_eq_false]
    exact head_dropWhile isOperatorChar text

/-- An operator is recognised when the whole run of operator characters is one. -/
theorem operatorAt?_eq (before : Option Char) (text : Text) :
    operatorAt? before text =
      if before.any blocksOperator = false ∧ text.takeWhile isOperatorChar ∈ operators then
        some (text.takeWhile isOperatorChar)
      else none := by
  rw [operatorAt?, show (fun c => isOperatorChar c || c == '-') = blocksOperator from rfl]
  cases blocked : before.any blocksOperator with
  | true => simp
  | false =>
    simp only [Bool.false_eq_true, if_false, true_and]
    split
    next member =>
      cases found : operators.find? _ with
      | none =>
        exact absurd ((endsOperator_iff member text).mpr rfl) (find?_eq_none.mp found _ member)
      | some operator =>
        have holds := find?_some found
        rw [(endsOperator_iff (mem_of_find?_eq_some found) text).mp holds]
    next absent =>
      rw [find?_eq_none]
      intro operator member holds
      exact absent ((endsOperator_iff member text).mp holds ▸ member)

/-- The operator at a position with the spaces around it. -/
def spacingAt (before : Option Char) (rest : Text) : Option (Text × Nat) :=
  (operatorAt? before rest).map fun operator =>
    ([' '] ++ operator ++ [' '], operator.length)

theorem spacingAt_of_prefix {other : Text}
    (same : text.takeWhile isOperatorChar = other.takeWhile isOperatorChar)
    (before : Option Char) : spacingAt before text = spacingAt before other := by
  simp only [spacingAt, operatorAt?_eq, same]

theorem spacingAt_of_head (plain : ∀ c ∈ text.head?, isOperatorChar c = false)
    (before : Option Char) : spacingAt before text = none := by
  have empty : text.takeWhile isOperatorChar = [] :=
    takeWhile_append_of_head (forall_mem_nil _) plain
  have apart : ([] : Text) ∉ operators := by decide
  simp [spacingAt, operatorAt?_eq, empty, apart]

theorem progresses_spacingAt : Progresses spacingAt := by
  intro before text replacement taken found
  obtain ⟨operator, present, same⟩ := Option.map_eq_some_iff.mp found
  obtain ⟨-, rfl⟩ := Prod.mk.inj same
  rw [operatorAt?_eq] at present
  split at present
  next known =>
    cases present
    obtain ⟨occupied, -⟩ := operatorChars_operators _ known.2
    exact ⟨length_pos_iff.mpr occupied, ( takeWhile_prefix _).length_le⟩
  next => cases present

/-- What a found operator tells: it is taken whole, and where it may stand. -/
theorem exists_of_spacingAt {taken replacement : Text}
    (found : spacingAt before (taken ++ text) = some (replacement, taken.length)) :
    taken ∈ operators ∧ replacement = ' ' :: (taken ++ [' ']) ∧
      (before.any blocksOperator = false) ∧ ∀ c ∈ text.head?, isOperatorChar c = false := by
  obtain ⟨operator, present, same⟩ := Option.map_eq_some_iff.mp found
  obtain ⟨rfl, length⟩ := Prod.mk.inj same
  rw [operatorAt?_eq] at present
  split at present
  next known =>
    cases present
    have cut : taken ++ text = (taken ++ text).takeWhile isOperatorChar ++
        (taken ++ text).dropWhile isOperatorChar := takeWhile_append_dropWhile.symm
    obtain ⟨run, behind⟩ := append_inj cut length.symm
    refine ⟨run.symm ▸ known.2, by rw [← run]; rfl, known.1, ?_⟩
    rw [behind]
    exact head_dropWhile isOperatorChar (taken ++ text)
  next => cases present

theorem spacingAt_of_operators {operator : Text}
    (known : operator ∈ operators) (free : before.any blocksOperator = false)
    (ends : ∀ c ∈ text.head?, isOperatorChar c = false) :
    spacingAt before (operator ++ text) = some (' ' :: (operator ++ [' ']), operator.length) := by
  have run := takeWhile_append_of_head (operatorChars_operators operator known).2 ends
  simp [spacingAt, operatorAt?_eq, run, free, known]

/-- Put a character before a text whose runs of spaces are single. -/
def pressSpace (c : Char) (text : Text) : Text :=
  if c = ' ' && text.head? == some ' ' then text else c :: text

theorem head?_squeezeSpaces (text : Text) : (squeezeSpaces text).head? = text.head? := by
  induction text with
  | nil => rfl
  | cons c text ih =>
    rw [squeezeSpaces]
    split
    next both =>
      simp only [Bool.and_eq_true, decide_eq_true_eq, beq_iff_eq] at both
      rw [ih, both.1, both.2]
      rfl
    next => rfl

theorem squeezeSpaces_eq_foldr (text : Text) : squeezeSpaces text = text.foldr pressSpace [] := by
  induction text with
  | nil => rfl
  | cons c text ih =>
    rw [squeezeSpaces, foldr_cons, ← ih, pressSpace, head?_squeezeSpaces]

theorem squeezeSpaces_append (first second : Text) :
    squeezeSpaces (first ++ second) = first.foldr pressSpace (squeezeSpaces second) := by
  rw [squeezeSpaces_eq_foldr, foldr_append, ← squeezeSpaces_eq_foldr]

theorem squeezeSpaces_cons (c : Char) (text : Text) :
    squeezeSpaces (c :: text) = pressSpace c (squeezeSpaces text) :=
  squeezeSpaces_append [c] text

theorem pressSpace_of_ne (solid : c ≠ ' ') (text : Text) : pressSpace c text = c :: text := by
  simp [pressSpace, solid]

theorem squeezeSpaces_append_of_solid (solid : ∀ c ∈ first, c ≠ ' ')
    (second : Text) : squeezeSpaces (first ++ second) = first ++ squeezeSpaces second := by
  induction first with
  | nil => rfl
  | cons c first ih =>
    rw [cons_append, squeezeSpaces_cons, pressSpace_of_ne (solid c mem_cons_self),
      ih (forall_mem_cons.mp solid).2, cons_append]

theorem squeezeSpaces_twice (text : Text) :
    squeezeSpaces (' ' :: ' ' :: text) = squeezeSpaces (' ' :: text) := by
  rw [squeezeSpaces_cons, squeezeSpaces_cons, pressSpace.eq_def ' ' (pressSpace ' ' _)]
  simp [pressSpace]
  split <;> simp_all

@[simp] theorem squash_squeezeSpaces (text : Text) : squash (squeezeSpaces text) = squash text := by
  induction text with
  | nil => rfl
  | cons c text ih =>
    rw [squeezeSpaces_cons, pressSpace, squash_cons]
    split
    next both =>
      simp only [Bool.and_eq_true, decide_eq_true_eq] at both
      simp [both.1, ih]
    next => rw [squash_cons, ih]

section Spaced

theorem squash_of_spaced (spaced : Rewritten spacingAt before text result) :
    squash result = squash text := by
  induction spaced with
  | nil => rfl
  | plain _ _ ih => rw [squash_cons, squash_cons, ih]
  | found _ present _ ih =>
    obtain ⟨-, rfl, -⟩ := exists_of_spacingAt present
    simp [squash_cons, ih]

/-- Only an operator gets a space in front of it. -/
theorem head?_of_spaced (spaced : Rewritten spacingAt before text result)
    (plain : ∀ c ∈ text.head?, isOperatorChar c = false) : result.head? = text.head? := by
  cases spaced with
  | nil | plain => rfl
  | found occupied present =>
    obtain ⟨known, -⟩ := exists_of_spacingAt present
    obtain ⟨c, later, rfl⟩ := exists_cons_of_ne_nil occupied
    have operator := (operatorChars_operators _ known).2 c mem_cons_self
    rw [plain c rfl] at operator
    cases operator

/-- Behind an operator character the rest of its run stays as it is. -/
theorem takeWhile_of_spaced (spaced : Rewritten spacingAt before text result)
    (inside : before.any isOperatorChar = true) :
    result.takeWhile isOperatorChar = text.takeWhile isOperatorChar := by
  induction spaced with
  | nil => rfl
  | @plain before c text result absent rest ih =>
    cases operator : isOperatorChar c with
    | false => simp [operator]
    | true => simp [operator, ih (by simpa using operator)]
  | found _ present =>
    obtain ⟨-, -, free, -⟩ := exists_of_spacingAt present
    obtain ⟨c, rfl, operator⟩ := (Option.any_eq_true _ _).mp inside
    simp [blocksOperator, operator] at free

theorem spacingAt_cons_of_spaced (spaced : Rewritten spacingAt (some c) text result)
    (before : Option Char) : spacingAt before (c :: result) = spacingAt before (c :: text) := by
  refine spacingAt_of_prefix ?_ before
  cases operator : isOperatorChar c with
  | false => simp [operator]
  | true => simp [operator, takeWhile_of_spaced spaced (by simpa using operator)]

theorem ne_space_of_operator {taken : Text} (known : taken ∈ operators) : ∀ c ∈ taken, c ≠ ' ' := by
  rintro c member rfl
  cases (operatorChars_operators _ known).2 _ member

/-- Spaces written once more around operators are squeezed away. -/
theorem exists_spaced_again (spaced : Rewritten spacingAt before text result) :
    ∃ again, Rewritten spacingAt before result again ∧
      squeezeSpaces again = squeezeSpaces result := by
  induction spaced with
  | nil before => exact ⟨[], .nil before, rfl⟩
  | @plain before c text result absent rest ih =>
    obtain ⟨again, rewritten, same⟩ := ih
    refine ⟨c :: again, .plain ?_ rewritten, ?_⟩
    · rw [spacingAt_cons_of_spaced rest, absent]
    · rw [squeezeSpaces_cons, squeezeSpaces_cons, same]
  | @found before taken text replacement result occupied present rest ih =>
    obtain ⟨again, rewritten, same⟩ := ih
    obtain ⟨known, rfl, free, ends⟩ := exists_of_spacingAt present
    have plain : ∀ c ∈ result.head?, isOperatorChar c = false := by
      rw [head?_of_spaced rest ends]
      exact ends
    have space : isOperatorChar ' ' = false := rfl
    refine ⟨' ' :: ((' ' :: (taken ++ [' '])) ++ (' ' :: again)), ?_, ?_⟩
    · rw [cons_append]
      refine .plain (spacingAt_of_head (by simp [space]) _) ?_
      rw [append_assoc, singleton_append]
      refine .found occupied (spacingAt_of_operators known rfl (by simp [space])) ?_
      refine .plain (spacingAt_of_head (by simp [space]) _) (rewritten.change_before ?_)
      rw [spacingAt_of_head plain, spacingAt_of_head plain]
    · have solid := ne_space_of_operator known
      simp only [cons_append, append_assoc, nil_append]
      rw [squeezeSpaces_twice, squeezeSpaces_cons, squeezeSpaces_append_of_solid solid,
        squeezeSpaces_twice, squeezeSpaces_cons ' ' (_ ++ _), squeezeSpaces_append_of_solid solid,
        squeezeSpaces_cons, squeezeSpaces_cons, same]

theorem takeWhile_squeezeSpaces (text : Text) :
    (squeezeSpaces text).takeWhile isOperatorChar = text.takeWhile isOperatorChar := by
  induction text with
  | nil => rfl
  | cons c text ih =>
    rw [squeezeSpaces_cons, pressSpace]
    split
    next both =>
      simp only [Bool.and_eq_true, decide_eq_true_eq, beq_iff_eq] at both
      obtain ⟨rfl, space⟩ := both
      rw [head?_squeezeSpaces] at space
      obtain ⟨rest, rfl⟩ := head?_eq_some_iff.mp space
      rw [ih]
      rfl
    next => simp only [takeWhile_cons, ih]

/-- Squeezing before or after writing the spaces comes to the same. -/
theorem exists_spaced_squeezed (spaced : Rewritten spacingAt before text result) :
    ∃ other, Rewritten spacingAt before (squeezeSpaces text) other ∧
      squeezeSpaces other = squeezeSpaces result := by
  induction spaced with
  | nil before => exact ⟨[], .nil before, rfl⟩
  | @plain before c text result absent rest ih =>
    obtain ⟨other, rewritten, same⟩ := ih
    rw [squeezeSpaces_cons, pressSpace]
    split
    next both =>
      simp only [Bool.and_eq_true, decide_eq_true_eq, beq_iff_eq] at both
      obtain ⟨rfl, space⟩ := both
      have plain : ∀ c ∈ (squeezeSpaces text).head?, isOperatorChar c = false := by
        rw [space]
        rintro c ⟨⟩
        rfl
      refine ⟨other, rewritten.change_before ?_, ?_⟩
      · rw [spacingAt_of_head plain, spacingAt_of_head plain]
      · have leads : (squeezeSpaces result).head? = some ' ' := by
          rw [← same, head?_squeezeSpaces, head?_of_spaced rewritten plain, space]
        rw [squeezeSpaces_cons, pressSpace, leads, same]
        rfl
    next =>
      refine ⟨c :: other, .plain ?_ rewritten, ?_⟩
      · rw [← absent]
        exact spacingAt_of_prefix (by simp [takeWhile_cons, takeWhile_squeezeSpaces]) before
      · rw [squeezeSpaces_cons, squeezeSpaces_cons, same]
  | @found before taken text replacement result occupied present rest ih =>
    obtain ⟨other, rewritten, same⟩ := ih
    obtain ⟨known, rfl, free, ends⟩ := exists_of_spacingAt present
    rw [squeezeSpaces_append_of_solid (ne_space_of_operator known)]
    refine ⟨_, .found occupied (spacingAt_of_operators known free ?_) rewritten, ?_⟩
    · rwa [head?_squeezeSpaces]
    · rw [squeezeSpaces_append, squeezeSpaces_append, same]

end Spaced

/-- Operators between spaces, and single spaces. -/
def tidy (text : Text) : Text :=
  squeezeSpaces (spaceOperators text)

theorem spaced_spaceOperators (text : Text) :
    Rewritten spacingAt none text (spaceOperators text) :=
  rewritten_substitute progresses_spacingAt text

theorem spaceOperators_eq (spaced : Rewritten spacingAt none text result) :
    spaceOperators text = result :=
  substitute_eq progresses_spacingAt spaced

@[simp] theorem squash_tidy (text : Text) : squash (tidy text) = squash text := by
  rw [tidy, squash_squeezeSpaces, squash_of_spaced (spaced_spaceOperators text)]

theorem tidy_tidy (text : Text) : tidy (tidy text) = tidy text := by
  obtain ⟨again, twice, same⟩ := exists_spaced_again (spaced_spaceOperators text)
  obtain ⟨other, squeezed, also⟩ := exists_spaced_squeezed twice
  calc
    tidy (tidy text) = squeezeSpaces other := congrArg squeezeSpaces (spaceOperators_eq squeezed)
    _ = squeezeSpaces again := also
    _ = tidy text := same

section Pieces

variable {lead : Text}

theorem isOperatorChar_of_free (free : blocksOperator c = false) : isOperatorChar c = false := by
  cases operator : isOperatorChar c with
  | false => rfl
  | true => simp [blocksOperator, operator] at free

theorem spaced_append_of_free (free : ∀ c ∈ lead, blocksOperator c = false)
    (apart : before.any blocksOperator = false)
    (spaced : Rewritten spacingAt none text result) :
    Rewritten spacingAt before (lead ++ text) (lead ++ result) := by
  induction lead generalizing before with
  | nil =>
    refine spaced.change_before ?_
    simp [spacingAt, operatorAt?_eq, apart]
  | cons c lead ih =>
    have here := free c mem_cons_self
    refine .plain (spacingAt_of_head ?_ before)
      (ih (forall_mem_cons.mp free).2 (by simpa using here))
    rintro d ⟨⟩
    exact isOperatorChar_of_free here

theorem spaceOperators_append_of_free (free : ∀ c ∈ lead, blocksOperator c = false)
    (text : Text) : spaceOperators (lead ++ text) = lead ++ spaceOperators text :=
  spaceOperators_eq (spaced_append_of_free free rfl (spaced_spaceOperators text))

theorem spaced_append (plain : ∀ c ∈ text.head?, isOperatorChar c = false)
    (spaced : Rewritten spacingAt none text result) {written : Text}
    (first : Rewritten spacingAt before lead written) :
    Rewritten spacingAt before (lead ++ text) (written ++ result) := by
  have same : ∀ run : Text,
      (run ++ text).takeWhile isOperatorChar = run.takeWhile isOperatorChar := by
    intro run
    induction run with
    | nil => exact takeWhile_append_of_head (forall_mem_nil _) plain
    | cons c run ih => simp only [cons_append, takeWhile_cons, ih]
  induction first with
  | nil before =>
    refine spaced.change_before ?_
    rw [spacingAt_of_head plain, spacingAt_of_head plain]
  | @plain before c lead written absent rest ih =>
    refine .plain ?_ ih
    rw [← absent]
    exact spacingAt_of_prefix (same (c :: lead)) before
  | @found before taken lead replacement written occupied present rest ih =>
    rw [append_assoc, append_assoc]
    refine .found occupied ?_ ih
    rw [← present, ← append_assoc]
    exact spacingAt_of_prefix (same (taken ++ lead)) before

theorem spaceOperators_append (plain : ∀ c ∈ text.head?, isOperatorChar c = false)
    (lead : Text) : spaceOperators (lead ++ text) = spaceOperators lead ++ spaceOperators text :=
  spaceOperators_eq (spaced_append plain (spaced_spaceOperators text) (spaced_spaceOperators lead))

theorem pressSpace_append (c : Char) (occupied : first ≠ []) (second : Text) :
    pressSpace c (first ++ second) = pressSpace c first ++ second := by
  obtain ⟨d, rest, rfl⟩ := exists_cons_of_ne_nil occupied
  by_cases both : c = ' ' ∧ d = ' ' <;> simp [pressSpace, both]

theorem squeezeSpaces_append_of_head {second : Text} (solid : ∀ c ∈ second.head?, c ≠ ' ')
    (first : Text) :
    squeezeSpaces (first ++ second) = squeezeSpaces first ++ squeezeSpaces second := by
  induction first with
  | nil => rfl
  | cons c first ih =>
    rw [cons_append, squeezeSpaces_cons, squeezeSpaces_cons, ih]
    cases squeezed : squeezeSpaces first with
    | cons d rest => exact pressSpace_append c (cons_ne_nil d rest) _
    | nil =>
      have apart : (squeezeSpaces second).head? ≠ some ' ' := by
        rw [head?_squeezeSpaces]
        exact fun head => solid ' ' head rfl
      simp [pressSpace, apart]

/-- A character at the end stays, or is squeezed into the space before it. -/
theorem squeezeSpaces_append_last (text : Text) (c : Char) :
    squeezeSpaces (text ++ [c]) = squeezeSpaces text ∨
      squeezeSpaces (text ++ [c]) = squeezeSpaces text ++ [c] := by
  induction text with
  | nil => simp [squeezeSpaces]
  | cons d text ih =>
    rw [cons_append, squeezeSpaces_cons, squeezeSpaces_cons]
    rcases ih with same | same
    · exact .inl (by rw [same])
    · rw [same]
      cases squeezeSpaces text with
      | cons e rest => exact .inr (pressSpace_append d (cons_ne_nil e rest) [c])
      | nil => by_cases both : d = ' ' ∧ c = ' ' <;> simp [pressSpace, both]

theorem tidy_append_of_free (free : ∀ c ∈ lead, blocksOperator c = false ∧ c ≠ ' ')
    (text : Text) : tidy (lead ++ text) = lead ++ tidy text := by
  rw [tidy, spaceOperators_append_of_free fun c member => (free c member).1,
    squeezeSpaces_append_of_solid fun c member => (free c member).2]
  rfl

theorem tidy_append (plain : ∀ c ∈ text.head?, isOperatorChar c = false ∧ c ≠ ' ') (lead : Text) :
    tidy (lead ++ text) = tidy lead ++ tidy text := by
  have operator : ∀ c ∈ text.head?, isOperatorChar c = false := fun c head => (plain c head).1
  rw [tidy, spaceOperators_append operator, squeezeSpaces_append_of_head]
  · rfl
  · rw [head?_of_spaced (spaced_spaceOperators text) operator]
    exact fun c head => (plain c head).2

end Pieces

end LookML.Sql
