import LookML.Section
import Mathlib.Data.List.Basic

/-!
# The arrangement of fields

Arranging fields in sections moves them and nothing else.  Fields that were arranged stand
in the order of their sections, each section sorted if that was asked for, so arranging them
again moves nothing.
-/

namespace LookML

open List

namespace Text

theorem le_total (left right : Text) : le left right = true ∨ le right left = true := by
  induction left generalizing right with
  | nil => exact .inl rfl
  | cons a left ih =>
    cases right with
    | nil => exact .inr rfl
    | cons b right =>
      by_cases same : a = b
      · simpa [le, same] using ih right
      · have other : ¬ b = a := fun equal => same equal.symm
        have numbers : a.toNat ≠ b.toNat := fun equal => same (Char.toNat_inj.mp equal)
        simp only [le, if_neg same, if_neg other, decide_eq_true_eq]
        omega

theorem le_antisymm {left right : Text} (below : le left right = true)
    (above : le right left = true) :
    left = right := by
  induction left generalizing right with
  | nil =>
    cases right with
    | nil => rfl
    | cons => cases above
  | cons a left ih =>
    cases right with
    | nil => cases below
    | cons b right =>
      by_cases same : a = b
      · subst same
        simp only [le, if_true] at below above
        rw [ih below above]
      · have other : ¬ b = a := fun equal => same equal.symm
        simp only [le, if_neg same, if_neg other, decide_eq_true_eq] at below above
        omega

theorem le_trans {left middle right : Text} (first : le left middle = true)
    (second : le middle right = true) : le left right = true := by
  induction left generalizing middle right with
  | nil => rfl
  | cons a left ih =>
    cases middle with
    | nil => cases first
    | cons b middle =>
      cases right with
      | nil => cases second
      | cons c right =>
        simp only [le] at first second ⊢
        by_cases ab : a = b
        · subst ab
          by_cases ac : a = c
          · subst ac
            simp only [if_true] at first second ⊢
            exact ih first second
          · simpa [ac] using second
        · by_cases bc : b = c
          · subst bc
            simpa [ab] using first
          · rw [if_neg ab, decide_eq_true_eq] at first
            rw [if_neg bc, decide_eq_true_eq] at second
            have ac : a ≠ c := by
              rintro rfl
              omega
            rw [if_neg ac, decide_eq_true_eq]
            omega

end Text

open Text

theorem nameLe_total (left right : Text) : (nameLe left right || nameLe right left) = true := by
  rw [Bool.or_eq_true]
  by_cases same : fold left = fold right
  · simpa [nameLe, same] using Text.le_total left right
  · have other : ¬ fold right = fold left := fun equal => same equal.symm
    simpa [nameLe, same, other] using Text.le_total (fold left) (fold right)

theorem nameLe_trans {left middle right : Text} (first : nameLe left middle = true)
    (second : nameLe middle right = true) : nameLe left right = true := by
  simp only [nameLe] at first second ⊢
  by_cases lower : fold left = fold middle
  · by_cases upper : fold middle = fold right
    · rw [if_pos lower] at first
      rw [if_pos upper] at second
      rw [if_pos (lower.trans upper)]
      exact Text.le_trans first second
    · rw [if_neg upper] at second
      rwa [if_neg (by rwa [lower]), lower]
  · rw [if_neg lower] at first
    by_cases upper : fold middle = fold right
    · rwa [if_neg (by rwa [← upper]), ← upper]
    · rw [if_neg upper] at second
      have apart : ¬ fold left = fold right := by
        intro same
        rw [← same] at second
        exact lower (Text.le_antisymm first second)
      rw [if_neg apart]
      exact Text.le_trans first second

namespace Section

variable {group sort : Bool}

theorem perm_ofCategory (group sort : Bool) (fields : List Field) (category : Category) :
    (ofCategory group sort fields category).fields.Perm
      (fields.filter fun field => Category.ofKind field.kind = category) := by
  unfold ofCategory
  dsimp only
  split
  · exact mergeSort_perm _ _
  · exact Perm.refl _

theorem flatMap_filter_occupied (sections : List Section) :
    (sections.filter fun part => !part.fields.isEmpty).flatMap fields =
      sections.flatMap fields := by
  induction sections with
  | nil => rfl
  | cons part sections ih =>
    rw [filter_cons]
    split
    · rw [flatMap_cons, flatMap_cons, ih]
    · next empty =>
        have none_ : part.fields = [] := by simpa using empty
        rw [ih, flatMap_cons, none_, nil_append]

/-- Every field is in the section of its category and in no other. -/
theorem perm_arrange (group sort : Bool) (members : List Field) :
    ((arrange group sort members).flatMap fields).Perm members := by
  unfold arrange
  split
  · next empty => rw [List.isEmpty_iff.mp empty]; exact Perm.refl _
  · split
    · simp
    · rw [flatMap_filter_occupied, perm_iff_count]
      intro field
      have each (category : Category) :
          (ofCategory group sort members category).fields.count field =
            if Category.ofKind field.kind = category then members.count field else 0 := by
        rw [(perm_ofCategory group sort members category).count_eq field]
        split
        · next same => exact count_filter (by simpa using same)
        · next other =>
            apply count_eq_zero.mpr
            intro member
            exact other (by simpa using (mem_filter.mp member).2)
      simp only [Category.all, map_cons, map_nil, flatMap_cons, flatMap_nil,
        count_append, count_nil, each]
      cases Category.ofKind field.kind <;> simp

/-- Fields one after another as they are arranged. -/
def arranged (group sort : Bool) (fields : List Field) : List Field :=
  (arrange group sort fields).flatMap Section.fields

theorem fieldLe_trans (first second third : Field) (lower : nameLe first.name second.name = true)
    (upper : nameLe second.name third.name = true) : nameLe first.name third.name = true :=
  nameLe_trans lower upper

theorem fieldLe_total (first second : Field) :
    (nameLe first.name second.name || nameLe second.name first.name) = true :=
  nameLe_total first.name second.name

/-- The section of a category is sorted by name where that is asked for. -/
theorem pairwise_ofCategory (group : Bool) (fields : List Field) (category : Category) :
    (ofCategory group true fields category).fields.Pairwise fun first second =>
      nameLe first.name second.name = true := by
  exact pairwise_mergeSort fieldLe_trans fieldLe_total _

/-- Among arranged fields those of a category are its section. -/
theorem filter_arranged (arranges : (group || sort) = true) (fields : List Field)
    (category : Category) :
    (arranged group sort fields).filter (fun field => Category.ofKind field.kind = category) =
      (ofCategory group sort fields category).fields := by
  have own (other : Category) : ∀ field ∈ (ofCategory group sort fields other).fields,
      Category.ofKind field.kind = other := by
    intro field member
    simpa using (mem_filter.mp ((perm_ofCategory group sort fields other).subset member)).2
  have each (other : Category) : (ofCategory group sort fields other).fields.filter
      (fun field => Category.ofKind field.kind = category) =
        if other = category then (ofCategory group sort fields other).fields else [] := by
    split
    next same =>
      refine filter_eq_self.mpr fun field member => ?_
      simpa [same] using own other field member
    next different =>
      refine filter_eq_nil_iff.mpr fun field member => ?_
      simpa [own other field member] using different
  have whole : arranged group sort fields =
      Category.all.flatMap fun other => (ofCategory group sort fields other).fields := by
    unfold arranged arrange
    split
    next empty =>
      have none_ (other : Category) : (ofCategory group sort fields other).fields = [] := by
        have nothing := (perm_ofCategory group sort fields other).length_eq
        rw [List.isEmpty_iff.mp empty] at nothing ⊢
        exact length_eq_zero_iff.mp nothing
      simp [none_]
    next =>
      have both : (!group && !sort) = false := by
        rw [← Bool.not_or, arranges]
        rfl
      rw [if_neg (by simp [both]), flatMap_filter_occupied, flatMap_map]
  rw [whole, filter_flatMap]
  simp only [each, Category.all]
  cases category <;> simp

theorem mem_of_mem_arrange {members : List Field} {part : Section}
    (inSections : part ∈ arrange group sort members) :
    ∀ field ∈ part.fields, field ∈ members := by
  intro field member
  apply (perm_arrange group sort members).subset
  exact mem_flatMap.mpr ⟨part, inSections, member⟩

end Section

end LookML
