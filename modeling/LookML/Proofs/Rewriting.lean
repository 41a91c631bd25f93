import LookML.Text.Scan

/-!
# Rewriting by a recogniser

Substitution scans a text from left to right and skips the characters of an
occurrence once it is found.  The relation below describes the same pass with the
occurrence as one step, so that facts about a substitution are proved by induction
on what it keeps and what it replaces.
-/

namespace LookML.Text

open List

variable {recognise : Option Char → Text → Option (Text × Nat)}

/-- The result of rewriting a text behind a character. -/
inductive Rewritten (recognise : Option Char → Text → Option (Text × Nat)) :
    Option Char → Text → Text → Prop
  | nil (before : Option Char) : Rewritten recognise before [] []
  | plain {before : Option Char} {c : Char} {text result : Text}
      (absent : recognise before (c :: text) = none)
      (rest : Rewritten recognise (some c) text result) :
      Rewritten recognise before (c :: text) (c :: result)
  | found {before : Option Char} {taken text replacement result : Text}
      (occupied : taken ≠ [])
      (present : recognise before (taken ++ text) = some (replacement, taken.length))
      (rest : Rewritten recognise taken.getLast? text result) :
      Rewritten recognise before (taken ++ text) (replacement ++ result)

/-- A recogniser whose occurrences are not empty and lie within the text. -/
def Progresses (recognise : Option Char → Text → Option (Text × Nat)) : Prop :=
  ∀ before text replacement taken, recognise before text = some (replacement, taken) →
    0 < taken ∧ taken ≤ text.length

theorem scanFrom_skip {α : Type} (look : Option Char → Text → Option (α × Nat))
    (before : Char) (skipped text : Text) :
    scanFrom look (some before) skipped.length (skipped ++ text) =
      scanFrom look (before :: skipped).getLast? 0 text := by
  induction skipped generalizing before with
  | nil => rfl
  | cons c skipped ih =>
    rw [length_cons, cons_append, scanFrom, ih, getLast?_cons_cons]

private theorem rewritten_scanFrom (progresses : Progresses recognise) :
    ∀ (text : Text) (before : Option Char), Rewritten recognise before text
      ((scanFrom recognise before 0 text).flatMap fun
        | .plain c => [c]
        | .found replacement => replacement)
  | [], before => .nil before
  | c :: text, before => by
      rw [scanFrom]
      split
      next replacement taken present =>
        obtain ⟨positive, bounded⟩ := progresses _ _ _ _ present
        simp only [length_cons] at bounded
        have skipped : (text.take (taken - 1)).length = taken - 1 :=
          length_take_of_le (by omega)
        have cut : text = text.take (taken - 1) ++ text.drop (taken - 1) :=
          (take_append_drop _ _).symm
        have behind := scanFrom_skip recognise c (text.take (taken - 1)) (text.drop (taken - 1))
        rw [skipped, ← cut] at behind
        rw [flatMap_cons, behind]
        conv => arg 3; rw [cut, ← cons_append]
        refine .found (cons_ne_nil _ _) ?_ (rewritten_scanFrom progresses _ _)
        rw [cons_append, ← cut, present, length_cons, skipped, Nat.sub_add_cancel positive]
      next absent =>
        exact .plain absent (rewritten_scanFrom progresses text (some c))
  termination_by text => text.length
  decreasing_by
    · simp only [length_drop, length_cons]
      omega
    · simp

theorem rewritten_substitute (progresses : Progresses recognise) (text : Text) :
    Rewritten recognise none text (substitute recognise text) :=
  rewritten_scanFrom progresses text none

theorem Rewritten.unique {before : Option Char} {text first second : Text}
    (left : Rewritten recognise before text first)
    (right : Rewritten recognise before text second) : first = second := by
  induction left generalizing second with
  | nil before =>
    generalize empty : ([] : Text) = text at right
    cases right with
    | nil => rfl
    | plain => cases empty
    | found occupied =>
      exact absurd (append_eq_nil_iff.mp empty.symm).1 occupied
  | @plain before c text result absent rest ih =>
    generalize same : c :: text = whole at right
    cases right with
    | nil => cases same
    | plain _ other =>
      obtain ⟨rfl, rfl⟩ := cons.inj same
      rw [ih other]
    | found _ present =>
      rw [← same, absent] at present
      cases present
  | @found before taken text replacement result occupied present rest ih =>
    generalize same : taken ++ text = whole at right
    cases right with
    | nil => exact absurd (append_eq_nil_iff.mp same).1 occupied
    | plain absent =>
      rw [← same, present] at absent
      cases absent
    | found _ again other =>
      rw [← same, present] at again
      simp only [Option.some.injEq, Prod.mk.injEq] at again
      obtain ⟨rfl, length⟩ := again
      obtain ⟨rfl, rfl⟩ := append_inj same length
      rw [ih other]

theorem substitute_eq (progresses : Progresses recognise) {text result : Text}
    (rewritten : Rewritten recognise none text result) : substitute recognise text = result :=
  (rewritten_substitute progresses text).unique rewritten

/-- Only the first step looks at the character before the text. -/
theorem Rewritten.change_before {before other : Option Char} {text result : Text}
    (same : recognise other text = recognise before text)
    (rewritten : Rewritten recognise before text result) :
    Rewritten recognise other text result := by
  cases rewritten with
  | nil => exact .nil other
  | plain absent rest => exact .plain (same.trans absent) rest
  | found occupied present rest => exact .found occupied (same.trans present) rest

end LookML.Text
