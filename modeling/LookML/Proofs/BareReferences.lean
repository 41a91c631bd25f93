import Mathlib.Data.List.Infix
import LookML.Proofs.Code
import LookML.Proofs.Spans
import LookML.Sql.Spelling

/-!
# Bare references

The bare references of a text are read once its spans are blanked out.  Where a reference stands
outside every span it can be put into a substitution of its own: the text loses this reference
and keeps all others.
-/

namespace LookML.Lint

open Text Code List

variable {text : Text} {c : Char}

/-- A reference inside a substitution of its own. -/
def substitution (reference : Text) : Text :=
  '$' :: '{' :: (reference ++ ['}'])

/-- A place between two parts of a text outside all spans, at which a path does not go on.  No
substitution may be left open before it, whether or not it is closed behind. -/
structure Bare (before after : Text) : Prop where
  substitutions : ¬ LeavesOpen ['$', '{'] ['}'] before
  expressions : LeavesOpen ['{', '{'] ['}', '}'] (blankSpans ['$', '{'] ['}'] before) →
    ¬ ['}', '}'] <:+: blankSpans ['$', '{'] ['}'] after
  tags : LeavesOpen ['{', '%'] ['%', '}']
      (blankSpans ['{', '{'] ['}', '}'] (blankSpans ['$', '{'] ['}'] before)) →
    ¬ ['%', '}'] <:+: blankSpans ['{', '{'] ['}', '}'] (blankSpans ['$', '{'] ['}'] after)
  ends : after.head? = some '.' → ∀ c ∈ after.tail.head?, isIdentifierStart c = false

instance (before after : Text) : Decidable (Bare before after) :=
  decidable_of_iff (_ ∧ _ ∧ _ ∧ _)
    ⟨fun bare => ⟨bare.1, bare.2.1, bare.2.2.1, bare.2.2.2⟩,
      fun bare => ⟨bare.1, bare.2, bare.3, bare.4⟩⟩

section Blanking

variable {before after : Text}

/-- The characters of the marks around spans. -/
def marks : List Char := ['$', '{', '}', '%']

theorem head_blankSubstitutions
    (member : c ∈ (blankSubstitutions text).head?) : c = ' ' ∨ c ∈ text.head? := by
  refine (head_blankSpans (cons_ne_nil _ _) member).elim .inl fun inner => ?_
  refine (head_blankSpans (cons_ne_nil _ _) inner).elim .inl fun first => ?_
  exact head_blankSpans (cons_ne_nil _ _) first

theorem last_blankSubstitutions
    (member : c ∈ (blankSubstitutions text).getLast?) : c = ' ' ∨ c ∈ text.getLast? := by
  refine (last_blankSpans (cons_ne_nil _ _) member).elim .inl fun inner => ?_
  refine (last_blankSpans (cons_ne_nil _ _) inner).elim .inl fun last => ?_
  exact last_blankSpans (cons_ne_nil _ _) last

theorem ends_blankSubstitutions
    (ends : text.head? = some '.' → ∀ c ∈ text.tail.head?, isIdentifierStart c = false) :
    (blankSubstitutions text).head? = some '.' →
      ∀ c ∈ (blankSubstitutions text).tail.head?, isIdentifierStart c = false :=
  ends_blankSpans (cons_ne_nil _ _) _ <| ends_blankSpans (cons_ne_nil _ _) _ <|
    ends_blankSpans (cons_ne_nil _ _) _ ends

theorem Bare.blankTags {word : Text} (bare : Bare before after) (occupied : word ≠ [])
    (plain : ∀ c ∈ word, c ∉ marks) :
    blankSpans ['{', '%'] ['%', '}'] (blankSpans ['{', '{'] ['}', '}']
        (blankSpans ['$', '{'] ['}'] before ++ (word ++ blankSpans ['$', '{'] ['}'] after))) =
      blankSubstitutions before ++ (word ++ blankSubstitutions after) := by
  have apart {c : Char} {closer : Text} (inMarks : ∀ d ∈ '{' :: c :: closer, d ∈ marks) :
      ∀ d ∈ word, d ∉ '{' :: c :: closer := fun d member inside => plain d member (inMarks d inside)
  rw [blankSpans_around bare.expressions (cons_ne_nil _ _) occupied (apart (by decide)),
    blankSpans_around bare.tags (cons_ne_nil _ _) occupied (apart (by decide))]
  rfl

theorem Bare.blankSubstitutions_word {word : Text} (bare : Bare before after) (occupied : word ≠ [])
    (plain : ∀ c ∈ word, c ∉ marks) :
    blankSubstitutions (before ++ (word ++ after)) =
      blankSubstitutions before ++ (word ++ blankSubstitutions after) := by
  have apart : ∀ d ∈ word, d ∉ ['$', '{', '}'] := fun d member inside =>
    plain d member ((by decide : ∀ d ∈ ['$', '{', '}'], d ∈ marks) d inside)
  rw [blankSubstitutions, blankSpans_around (fun left => absurd left bare.substitutions)
    (cons_ne_nil _ _) occupied apart, bare.blankTags occupied plain]

/-- A substitution at a bare place is blanked out and nothing else. -/
theorem Bare.blankSubstitutions_substitution {reference : Text} (bare : Bare before after)
    (plain : '}' ∉ reference) :
    blankSubstitutions (before ++ (substitution reference ++ after)) =
      blankSubstitutions before ++ (' ' :: blankSubstitutions after) := by
  have span : blankSpans ['$', '{'] ['}'] (substitution reference ++ after) =
      ' ' :: blankSpans ['$', '{'] ['}'] after := by
    have spaced := blankSpans_span (cons_ne_nil '$' ['{']) (firstCut_of_not_mem plain after)
    simpa [substitution] using spaced
  rw [blankSubstitutions, blankSpans_append_of_closed bare.substitutions (by simp [substitution]),
    span]
  exact bare.blankTags (cons_ne_nil _ []) (by decide)

end Blanking

section Splitting

variable {mark : Char}

theorem split_append {piece tail : Text} (plain : mark ∉ piece)
    (begins : ∀ c ∈ tail.head?, c = mark) :
    split mark (piece ++ tail) = piece :: (split mark tail).tail := by
  induction piece with
  | nil =>
    cases tail with
    | nil => rfl
    | cons c tail =>
      obtain rfl := begins c rfl
      rw [nil_append, split, if_pos rfl, tail_cons]
  | cons c piece ih =>
    obtain ⟨here, later⟩ := not_or.mp (mem_cons.not.mp plain)
    rw [cons_append, split, if_neg (Ne.symm here), ih later]

/-- Joined pieces are split into themselves, whatever follows behind a mark. -/
theorem split_joinWith_append {pieces : List Text} {tail : Text} (occupied : pieces ≠ [])
    (plain : ∀ piece ∈ pieces, mark ∉ piece) (begins : ∀ c ∈ tail.head?, c = mark) :
    split mark (joinWith [mark] pieces ++ tail) = pieces ++ (split mark tail).tail := by
  induction pieces with
  | nil => exact absurd rfl occupied
  | cons piece pieces ih =>
    have here := plain piece mem_cons_self
    cases pieces with
    | nil =>
      rw [joinWith, intercalate_singleton, split_append here begins]
      rfl
    | cons next pieces =>
      have later := ih (cons_ne_nil _ _) (forall_mem_cons.mp plain).2
      rw [joinWith] at later ⊢
      rw [intercalate_cons_cons, append_assoc, append_assoc,
        singleton_append, split_append here (by simp), split, if_pos rfl, tail_cons,
        later]
      rfl

theorem exists_split (mark : Char) (text : Text) :
    ∃ first rest, split mark text = first :: rest ∧ ∀ c ∈ first.head?, c ∈ text.head? := by
  cases text with
  | nil => exact ⟨[], [], rfl, by simp⟩
  | cons c text =>
    rw [split]
    split
    next => exact ⟨[], _, rfl, by simp⟩
    next =>
      split
      next => exact ⟨[c], [], rfl, by simp⟩
      next first rest _ => exact ⟨c :: first, rest, rfl, by simp⟩

/-- The first pieces of a text, joined again, are its beginning. -/
theorem isPrefix_joinWith {pieces : List Text} (front : pieces <+: split mark text) :
    joinWith [mark] pieces <+: text := by
  induction text generalizing pieces with
  | nil =>
    obtain - | ⟨piece, pieces⟩ := pieces
    · exact nil_prefix
    · obtain ⟨rfl, rest⟩ := cons_prefix_cons.mp front
      rw [prefix_nil.mp rest]
      exact nil_prefix
  | cons c text ih =>
    obtain - | ⟨piece, pieces⟩ := pieces
    · exact nil_prefix
    rw [split] at front
    split at front
    next same =>
      obtain ⟨rfl, rest⟩ := cons_prefix_cons.mp front
      obtain - | ⟨next, pieces⟩ := pieces
      · exact nil_prefix
      · rw [joinWith, intercalate_cons_cons, nil_append, same]
        exact cons_prefix_cons.mpr ⟨rfl, ih rest⟩
    next =>
      obtain ⟨first, more, pieces', -⟩ := exists_split mark text
      rw [pieces'] at front ih
      obtain ⟨rfl, rest⟩ := cons_prefix_cons.mp front
      have inner := ih (cons_prefix_cons.mpr ⟨rfl, rest⟩)
      obtain - | ⟨next, pieces⟩ := pieces
      · rw [joinWith, intercalate_singleton] at inner ⊢
        exact cons_prefix_cons.mpr ⟨rfl, inner⟩
      · rw [joinWith, intercalate_cons_cons] at inner ⊢
        exact cons_prefix_cons.mpr ⟨rfl, inner⟩

theorem mem_of_mem_split {piece : Text} (isPiece : piece ∈ split mark text)
    (member : c ∈ piece) : c ∈ text ∧ c ≠ mark := by
  induction text generalizing piece with
  | nil =>
    rw [mem_singleton.mp isPiece] at member
    cases member
  | cons d text ih =>
    rw [split] at isPiece
    split at isPiece
    next =>
      rcases mem_cons.mp isPiece with rfl | later
      · cases member
      · exact (ih later member).imp_left (mem_cons_of_mem _)
    next other =>
      cases pieces : split mark text with
      | nil =>
        rw [pieces] at isPiece
        rw [mem_singleton.mp isPiece, mem_singleton] at member
        exact ⟨by simp [member], member ▸ other⟩
      | cons first rest =>
        rw [pieces] at isPiece ih
        rcases mem_cons.mp isPiece with rfl | later
        · rcases mem_cons.mp member with rfl | inside
          · exact ⟨mem_cons_self, other⟩
          · exact (ih mem_cons_self inside).imp_left (mem_cons_of_mem _)
        · exact (ih (mem_cons_of_mem _ later) member).imp_left (mem_cons_of_mem _)

end Splitting

section References

open Sql (isPathChar)

variable {previous : Option Char} {α : Type} {after : Text}

/-- A path of two or more identifiers. -/
def IsReference (reference : Text) : Prop :=
  ∃ parts : List Text, 2 ≤ parts.length ∧ reference = joinWith ['.'] parts ∧
    ∀ part ∈ parts, part.head?.any isIdentifierStart = true ∧ ∀ c ∈ part, isWord c = true

variable {reference : Text}

/-- The identifiers of the path that a text begins with. -/
def leadingPath (text : Text) : List Text :=
  (split '.' (text.takeWhile isPathChar)).takeWhile fun part => part.head?.any isIdentifierStart

theorem bareReferenceAt?_eq (previous : Option Char) (text : Text) :
    bareReferenceAt? previous text =
      if previous.any isPathChar then none
      else if (leadingPath text).length < 2 then none
      else some (joinWith ['.'] (leadingPath text), (joinWith ['.'] (leadingPath text)).length) :=
  rfl

theorem bareReferenceAt?_eq_some {taken : Nat}
    (found : bareReferenceAt? previous text = some (reference, taken)) :
    2 ≤ (leadingPath text).length ∧ joinWith ['.'] (leadingPath text) = reference ∧
      reference.length = taken := by
  rw [bareReferenceAt?_eq] at found
  split at found
  next => cases found
  next =>
    split at found
    next => cases found
    next several =>
      cases found
      exact ⟨Nat.le_of_not_lt several, rfl, rfl⟩

theorem isReference_of_bareReferenceAt? {taken : Nat}
    (found : bareReferenceAt? previous text = some (reference, taken)) : IsReference reference := by
  obtain ⟨several, rfl, -⟩ := bareReferenceAt?_eq_some found
  refine ⟨_, several, rfl, fun part member => ?_⟩
  have starts := mem_takeWhile_imp member
  refine ⟨starts, fun c inside => ?_⟩
  obtain ⟨inText, notDot⟩ := mem_of_mem_split ((takeWhile_sublist _).mem member) inside
  have path := mem_takeWhile_imp inText
  simpa [isPathChar, notDot] using path

theorem exists_of_mem_findAll {recognise : Option Char → Text → Option (α × Nat)} {value : α}
    (member : value ∈ findAll recognise text) :
    ∃ previous rest taken, recognise previous rest = some (value, taken) := by
  have scanned (previous : Option Char) (pending : Nat) (text : Text)
      (member : .found value ∈ scanFrom recognise previous pending text) :
      ∃ previous rest taken, recognise previous rest = some (value, taken) := by
    induction text generalizing previous pending with
    | nil =>
      rw [scanFrom] at member
      cases member
    | cons c text ih =>
      cases pending with
      | succ pending => exact ih _ _ member
      | zero =>
        rw [scanFrom] at member
        cases found : recognise previous (c :: text) with
        | none =>
          rw [found] at member
          exact ih _ _ (by simpa using member)
        | some occurrence =>
          rw [found] at member
          rcases member with _ | ⟨_, later⟩
          · exact ⟨previous, c :: text, occurrence.2, found⟩
          · exact ih _ _ later
  obtain ⟨piece, inScan, same⟩ := mem_filterMap.mp member
  cases piece with
  | plain => cases same
  | found =>
    cases same
    exact scanned none 0 text inScan

theorem isReference_of_mem {sql : Text} (member : reference ∈ bareReferences sql) :
    IsReference reference ∧ safeLead.isPrefixOf reference = false := by
  obtain ⟨inAll, counts⟩ := mem_filter.mp member
  obtain ⟨previous, rest, taken, found⟩ := exists_of_mem_findAll inAll
  exact ⟨isReference_of_bareReferenceAt? found, by simpa using counts⟩

theorem head_takeWhile {test : Char → Bool}
    (member : c ∈ (text.takeWhile test).head?) : c ∈ text.head? := by
  cases text with
  | nil => exact member
  | cons d text =>
    rw [takeWhile_cons] at member
    split at member
    · exact member
    · cases member

namespace IsReference

variable (isReference : IsReference reference)
include isReference

theorem isPathChar (member : c ∈ reference) : Sql.isPathChar c = true := by
  obtain ⟨parts, -, rfl, words⟩ := isReference
  induction parts with
  | nil => cases member
  | cons part parts ih =>
    have here (inside : c ∈ part) : Sql.isPathChar c = true := by
      simp [Sql.isPathChar, (words part mem_cons_self).2 c inside]
    cases parts with
    | nil =>
      rw [joinWith, intercalate_singleton] at member
      exact here member
    | cons next parts =>
      rw [joinWith, intercalate_cons_cons, mem_append, mem_append, mem_singleton] at member
      rcases member with (inside | rfl) | later
      · exact here inside
      · rfl
      · exact ih (forall_mem_cons.mp words).2 later

theorem mem_dot : '.' ∈ reference := by
  obtain ⟨parts, several, rfl, -⟩ := isReference
  obtain - | ⟨first, - | ⟨second, parts⟩⟩ := parts
  · simp at several
  · simp at several
  · rw [joinWith, intercalate_cons_cons]
    simp

theorem ne_nil : reference ≠ [] :=
  ne_nil_of_mem isReference.mem_dot

/-- A reference that ends where it ends is read as a whole. -/
theorem bareReferenceAt?_append
    (begins : ∀ c ∈ previous, Sql.isPathChar c = false) (head : ∀ c ∈ after.head?, isWord c = false)
    (ends : after.head? = some '.' → ∀ c ∈ after.tail.head?, isIdentifierStart c = false) :
    bareReferenceAt? previous (reference ++ after) = some (reference, reference.length) := by
  have path : (reference ++ after).takeWhile Sql.isPathChar =
      reference ++ after.takeWhile Sql.isPathChar :=
    takeWhile_append_of_pos fun c => isReference.isPathChar
  obtain ⟨parts, several, rfl, words⟩ := isReference
  have dotless : ∀ part ∈ parts, '.' ∉ part := by
    exact fun part member dot => absurd ((words part member).2 '.' dot) (by decide)
  have dotted : ∀ c ∈ (after.takeWhile Sql.isPathChar).head?, c = '.' := by
    intro c member
    have word := head c (head_takeWhile member)
    have path := mem_takeWhile_imp (mem_of_mem_head? member)
    simpa [Sql.isPathChar, word] using path
  have stops : (split '.' (after.takeWhile Sql.isPathChar)).tail.takeWhile
      (fun part => part.head?.any isIdentifierStart) = [] := by
    cases after with
    | nil => rfl
    | cons c after =>
      by_cases path : Sql.isPathChar c = true
      · rw [takeWhile_cons_of_pos path] at dotted ⊢
        obtain rfl := dotted c rfl
        obtain ⟨first, rest, pieces, starts⟩ := exists_split '.' (after.takeWhile Sql.isPathChar)
        rw [split, if_pos rfl, tail_cons, pieces, takeWhile_cons_of_neg]
        cases first with
        | nil => simp
        | cons d first => simp [ends rfl d (head_takeWhile (starts d rfl))]
      · rw [takeWhile_cons_of_neg path]
        rfl
  have whole : leadingPath (joinWith ['.'] parts ++ after) = parts := by
    rw [leadingPath, path, split_joinWith_append (by rintro rfl; simp at several) dotless dotted,
      takeWhile_append_of_pos fun part member => (words part member).1, stops, append_nil]
  have free : previous.any Sql.isPathChar = false := by
    cases previous with
    | none => rfl
    | some c => exact begins c rfl
  rw [bareReferenceAt?_eq, free, whole, if_neg Bool.false_ne_true,
    if_neg (Nat.not_lt.mpr several)]

end IsReference

/-- A scan over two texts goes over one and then the other if no occurrence in the first looks
at the second. -/
theorem scanFrom_append {recognise : Option Char → Text → Option (α × Nat)}
    {front rest : Text} {pending : Nat} (previous : Option Char) (fits : pending ≤ front.length)
    (bounded : ∀ previous text value taken, recognise previous text = some (value, taken) →
      taken ≤ text.length) (apart : ∀ last, last <:+ front → last ≠ [] → ∀ previous,
      recognise previous (last ++ rest) = recognise previous last) :
    scanFrom recognise previous pending (front ++ rest) =
      scanFrom recognise previous pending front ++
        scanFrom recognise (front.getLast?.or previous) 0 rest := by
  induction front generalizing previous pending with
  | nil =>
    obtain rfl : pending = 0 := Nat.le_zero.mp fits
    rfl
  | cons c front ih =>
    have later (last : Text) (behind : last <:+ front) :=
      apart last (behind.trans (suffix_cons c front))
    rw [getLast?_cons_or]
    cases pending with
    | succ pending => exact ih (some c) (Nat.le_of_succ_le_succ fits) later
    | zero =>
      have here := apart (c :: front) (suffix_refl _) (cons_ne_nil _ _) previous
      rw [cons_append] at here ⊢
      rw [scanFrom, scanFrom, here]
      cases found : recognise previous (c :: front) with
      | none => exact congrArg (List.cons _) (ih (some c) (Nat.zero_le _) later)
      | some occurrence =>
        have bound := bounded _ _ occurrence.1 occurrence.2 found
        rw [length_cons] at bound
        exact congrArg (List.cons _) (ih (some c) (by omega) later)

theorem scanFrom_change {recognise : Option Char → Text → Option (α × Nat)} {other : Option Char}
    (same : recognise previous text = recognise other text) :
    scanFrom recognise previous 0 text = scanFrom recognise other 0 text := by
  cases text with
  | nil => rfl
  | cons c text => rw [scanFrom, scanFrom, same]

theorem length_le_of_bareReferenceAt? {taken : Nat}
    (found : bareReferenceAt? previous text = some (reference, taken)) : taken ≤ text.length := by
  obtain ⟨-, rfl, rfl⟩ := bareReferenceAt?_eq_some found
  exact ((isPrefix_joinWith ( takeWhile_prefix _)).trans ( takeWhile_prefix _)).length_le

/-- Behind a character outside paths the references are read anew. -/
theorem findAll_append {front rest : Text} (seam : ∀ c ∈ front.getLast?, Sql.isPathChar c = false) :
    findAll bareReferenceAt? (front ++ rest) =
      findAll bareReferenceAt? front ++ findAll bareReferenceAt? rest := by
  have apart (last : Text) (behind : last <:+ front) (occupied : last ≠ [])
      (previous : Option Char) :
      bareReferenceAt? previous (last ++ rest) = bareReferenceAt? previous last := by
    have cut : (last ++ rest).takeWhile Sql.isPathChar = last.takeWhile Sql.isPathChar := by
      rw [takeWhile_append, if_neg]
      intro all
      have path := takeWhile_eq_self_iff.mp (( takeWhile_prefix _).eq_of_length all)
      obtain ⟨lead, rfl⟩ := behind
      have final : last.getLast occupied ∈ (lead ++ last).getLast? := by
        rw [getLast?_append_of_ne_nil _ occupied]
        exact getLast?_eq_some_getLast occupied
      have other := seam _ final
      rw [path _ (getLast_mem occupied)] at other
      cases other
    rw [bareReferenceAt?_eq, bareReferenceAt?_eq, leadingPath, cut, leadingPath]
  have scanned := scanFrom_append none (Nat.zero_le _)
    (fun _ _ _ _ => length_le_of_bareReferenceAt?) apart
  have anew : scanFrom bareReferenceAt? (front.getLast?.or none) 0 rest =
      scanFrom bareReferenceAt? none 0 rest := by
    refine scanFrom_change ?_
    rw [Option.or_none]
    cases last : front.getLast? with
    | none => rfl
    | some c =>
      have free : (some c).any Sql.isPathChar = false := seam c last
      rw [bareReferenceAt?_eq, bareReferenceAt?_eq, free]
      rfl
  rw [findAll, scan, scanned, anew, filterMap_append]
  rfl

theorem bareReferenceAt?_eq_none (head : ∀ c ∈ text.head?, isWord c = false)
    (previous : Option Char) : bareReferenceAt? previous text = none := by
  have stops : leadingPath text = [] := by
    obtain ⟨first, rest, pieces, starts⟩ := exists_split '.' (text.takeWhile isPathChar)
    rw [leadingPath, pieces, takeWhile_cons_of_neg]
    cases first with
    | nil => simp
    | cons c first =>
      have word := head c (head_takeWhile (starts c rfl))
      have notStart : isIdentifierStart c = false := by
        by_contra start
        rw [isWord_of_isIdentifierStart (by simpa using start)] at word
        cases word
      simp [notStart]
  rw [bareReferenceAt?_eq, stops]
  split <;> rfl

theorem IsReference.findAll_append (isReference : IsReference reference)
    (head : ∀ c ∈ after.head?, isWord c = false)
    (ends : after.head? = some '.' → ∀ c ∈ after.tail.head?, isIdentifierStart c = false) :
    findAll bareReferenceAt? (reference ++ after) =
      reference :: findAll bareReferenceAt? after := by
  have found : bareReferenceAt? none (reference ++ after) = some (reference, reference.length) :=
    isReference.bareReferenceAt?_append (by simp) head ends
  obtain ⟨c, tail, rfl⟩ := exists_cons_of_ne_nil isReference.ne_nil
  have anew : scanFrom bareReferenceAt? (c :: tail).getLast? 0 after =
      scanFrom bareReferenceAt? none 0 after :=
    scanFrom_change ((bareReferenceAt?_eq_none head _).trans (bareReferenceAt?_eq_none head _).symm)
  rw [cons_append] at found ⊢
  rw [findAll, scan, scanFrom, found]
  dsimp only
  rw [length_cons, Nat.add_sub_cancel, scanFrom_skip, anew]
  rfl

/-- A reference at a bare place is one of those of the text.  Inside a substitution it is not,
and the others are the same. -/
theorem Bare.bareReferences_substitution {before : Text} (bare : Bare before after)
    (isReference : IsReference reference) (counts : safeLead.isPrefixOf reference = false)
    (begins : ∀ c ∈ before.getLast?, Sql.isPathChar c = false)
    (head : ∀ c ∈ after.head?, isWord c = false) :
    bareReferences (before ++ (reference ++ after)) =
        bareReferences before ++ reference :: bareReferences after ∧
      bareReferences (before ++ (substitution reference ++ after)) =
        bareReferences before ++ bareReferences after := by
  have seam : ∀ c ∈ (blankSubstitutions before).getLast?, Sql.isPathChar c = false := by
    intro c member
    rcases last_blankSubstitutions member with rfl | last
    · decide
    · exact begins c last
  have head' : ∀ c ∈ (blankSubstitutions after).head?, isWord c = false := by
    intro c member
    rcases head_blankSubstitutions member with rfl | first
    · decide
    · exact head c first
  have ends := ends_blankSubstitutions bare.ends
  have unmarked : ∀ c ∈ reference, c ∉ marks := by
    intro c member inside
    have apart : ∀ c ∈ marks, Sql.isPathChar c = false := by decide
    exact absurd (isReference.isPathChar member) (by simp [apart c inside])
  have within : findAll bareReferenceAt? (blankSubstitutions (before ++ (reference ++ after))) =
      findAll bareReferenceAt? (blankSubstitutions before) ++
        reference :: findAll bareReferenceAt? (blankSubstitutions after) := by
    rw [bare.blankSubstitutions_word isReference.ne_nil unmarked, findAll_append seam,
      isReference.findAll_append head' ends]
  have without :
      findAll bareReferenceAt? (blankSubstitutions (before ++ (substitution reference ++ after))) =
        findAll bareReferenceAt? (blankSubstitutions before) ++
          findAll bareReferenceAt? (blankSubstitutions after) := by
    have space : findAll bareReferenceAt? (' ' :: blankSubstitutions after) =
        findAll bareReferenceAt? (blankSubstitutions after) :=
      @findAll_append [' '] _ (by decide)
    rw [bare.blankSubstitutions_substitution fun member => unmarked _ member (by decide),
      findAll_append seam, space]
  constructor
  · rw [bareReferences, within, filter_append, filter_cons_of_pos (by simp [counts])]
    rfl
  · rw [bareReferences, without, filter_append]
    rfl

end References

end LookML.Lint
