import LookML.Text.Basic

/-!
# Where texts are cut

The cuts of text find a beginning, an end, the first or the last occurrence of a
mark, and return all that stands around it.
-/

namespace LookML.Text

variable {mark text before rest : Text}

theorem after?_eq_some_iff {lead : Text} : after? lead text = some rest ↔ text = lead ++ rest := by
  induction lead generalizing text with
  | nil => simp [after?]
  | cons expected lead ih =>
    cases text with
    | nil => simp [after?]
    | cons actual text =>
      simp only [after?, Option.ite_none_right_eq_some, ih, List.cons_append, List.cons.injEq]
      exact and_congr_left fun _ => eq_comm

theorem after?_eq_none_iff {lead : Text} :
    after? lead text = none ↔ ∀ rest, text ≠ lead ++ rest := by
  rw [Option.eq_none_iff_forall_ne_some]
  exact forall_congr' fun rest => not_congr after?_eq_some_iff

theorem before?_eq_some_iff {tail lead : Text} :
    before? tail text = some lead ↔ text = lead ++ tail := by
  simp only [before?, Option.ite_none_right_eq_some, List.isSuffixOf_iff_suffix, Option.some.injEq]
  constructor
  · rintro ⟨⟨lead, rfl⟩, same⟩
    simp at same
    rw [same]
  · rintro rfl
    simp

/-- The first occurrence of a mark. -/
structure FirstCut (mark text before rest : Text) : Prop where
  text_eq : text = before ++ (mark ++ rest)
  first : ∀ lead tail, text = lead ++ (mark ++ tail) → before.length ≤ lead.length

theorem firstCut_of_cut? (found : cut? mark text = some (before, rest)) :
    FirstCut mark text before rest := by
  induction text generalizing before with
  | nil =>
    simp only [cut?, Option.map_eq_some_iff, Prod.mk.injEq, after?_eq_some_iff] at found
    obtain ⟨_, same, rfl, rfl⟩ := found
    exact ⟨same, fun _ _ _ => Nat.zero_le _⟩
  | cons c text ih =>
    rw [cut?] at found
    split at found
    next tail follows =>
      cases found
      have same := after?_eq_some_iff.mp follows
      exact ⟨same, fun _ _ _ => Nat.zero_le _⟩
    next absent =>
      simp only [Option.map_eq_some_iff, Prod.exists, Prod.mk.injEq] at found
      obtain ⟨inner, _, found, rfl, rfl⟩ := found
      obtain ⟨rfl, first⟩ := ih found
      refine ⟨rfl, fun lead tail same => ?_⟩
      cases lead with
      | nil => exact absurd same (after?_eq_none_iff.mp absent tail)
      | cons d lead => exact Nat.succ_le_succ (first lead tail (List.cons.inj same).2)

theorem exists_cut? {tail : Text} (same : text = before ++ (mark ++ tail)) :
    ∃ lead rest, cut? mark text = some (lead, rest) := by
  induction text generalizing before with
  | nil =>
    obtain ⟨-, empty⟩ := List.append_eq_nil_iff.mp same.symm
    exact ⟨[], tail, by rw [cut?, after?_eq_some_iff.mpr empty.symm]; rfl⟩
  | cons c text ih =>
    rw [cut?]
    split
    next rest _ => exact ⟨[], rest, rfl⟩
    next absent =>
      cases before with
      | nil => exact absurd same (after?_eq_none_iff.mp absent tail)
      | cons d before =>
        obtain ⟨lead, rest, found⟩ := ih (List.cons.inj same).2
        exact ⟨c :: lead, rest, by rw [found]; rfl⟩

theorem cut_unique {lead tail : Text} (same : before ++ (mark ++ rest) = lead ++ (mark ++ tail))
    (length : before.length = lead.length) : before = lead ∧ rest = tail := by
  obtain ⟨rfl, behind⟩ := List.append_inj same length
  exact ⟨rfl, List.append_cancel_left behind⟩

theorem cut?_eq_some_iff :
    cut? mark text = some (before, rest) ↔ FirstCut mark text before rest := by
  refine ⟨firstCut_of_cut?, fun ⟨same, first⟩ => ?_⟩
  obtain ⟨lead, tail, found⟩ := exists_cut? same
  obtain ⟨again, firstLead⟩ := firstCut_of_cut? found
  obtain ⟨rfl, rfl⟩ := cut_unique (same.symm.trans again)
    (Nat.le_antisymm (first lead tail again) (firstLead before rest same))
  exact found

theorem cut?_eq_none_iff : cut? mark text = none ↔ ∀ lead tail, text ≠ lead ++ (mark ++ tail) := by
  constructor
  · intro absent lead tail same
    obtain ⟨_, _, found⟩ := exists_cut? same
    rw [absent] at found
    cases found
  · intro absent
    cases found : cut? mark text with
    | none => rfl
    | some cut => exact absurd (firstCut_of_cut? found).text_eq (absent _ _)

theorem FirstCut.append (found : FirstCut mark text before rest) (tail : Text) :
    FirstCut mark (text ++ tail) before (rest ++ tail) := by
  constructor
  · simp [found.text_eq]
  · intro lead behind same
    apply Nat.le_of_not_lt
    intro shorter
    -- An earlier occurrence would end before the text does.
    have bounded : (lead ++ mark).length ≤ text.length := by
      simp only [found.text_eq, List.length_append]
      omega
    have inside : lead ++ mark <+: text := by
      apply List.prefix_of_prefix_length_le _ (List.prefix_append text tail) bounded
      exact ⟨behind, by rw [same, List.append_assoc]⟩
    obtain ⟨between, whole⟩ := inside
    have earliest := found.first lead between (by rw [← whole, List.append_assoc])
    omega

/-- A character comes first where it is not met before. -/
theorem firstCut_of_not_mem {c : Char} (absent : c ∉ before) (rest : Text) :
    FirstCut [c] (before ++ c :: rest) before rest := by
  refine ⟨rfl, fun lead tail same => Nat.le_of_not_lt fun shorter => ?_⟩
  rcases List.append_eq_append_iff.mp same with ⟨more, rfl, -⟩ | ⟨more, rfl, behind⟩
  · rw [List.length_append] at shorter
    omega
  · cases more with
    | nil => simp at shorter
    | cons d more =>
      obtain ⟨rfl, -⟩ := List.cons.inj behind
      exact absent (by simp)

/-- The last occurrence of a mark. -/
structure LastCut (mark text before rest : Text) : Prop where
  text_eq : text = before ++ (mark ++ rest)
  last : ∀ lead tail, text = lead ++ (mark ++ tail) → lead.length ≤ before.length

theorem cutLast?_eq_none_iff :
    cutLast? mark text = none ↔ ∀ lead tail, text ≠ lead ++ (mark ++ tail) := by
  induction text with
  | nil =>
    simp only [cutLast?, Option.map_eq_none_iff, after?_eq_none_iff]
    constructor
    · intro absent lead tail same
      exact absent tail (List.append_eq_nil_iff.mp same.symm).2.symm
    · exact fun absent rest same => absent [] rest same
  | cons c text ih =>
    rw [cutLast?]
    constructor
    · intro absent lead tail same
      split at absent
      · cases absent
      next none =>
        rw [Option.map_eq_none_iff, after?_eq_none_iff] at absent
        cases lead with
        | nil => exact absent tail same
        | cons d lead => exact ih.mp none lead tail (List.cons.inj same).2
    · intro absent
      have none := ih.mpr fun lead tail same => absent (c :: lead) tail (congrArg (c :: ·) same)
      rw [none, Option.map_eq_none_iff, after?_eq_none_iff]
      exact fun rest same => absent [] rest same

theorem lastCut_of_cutLast? (found : cutLast? mark text = some (before, rest)) :
    LastCut mark text before rest := by
  induction text generalizing before with
  | nil =>
    simp only [cutLast?, Option.map_eq_some_iff, Prod.mk.injEq, after?_eq_some_iff] at found
    obtain ⟨_, same, rfl, rfl⟩ := found
    refine ⟨same, fun lead tail other => ?_⟩
    exact Nat.le_of_eq (congrArg List.length (List.append_eq_nil_iff.mp other.symm).1)
  | cons c text ih =>
    rw [cutLast?] at found
    split at found
    next inner _ later =>
      simp only [Option.some.injEq, Prod.mk.injEq] at found
      obtain ⟨rfl, rfl⟩ := found
      obtain ⟨rfl, last⟩ := ih later
      refine ⟨rfl, fun lead tail same => ?_⟩
      cases lead with
      | nil => exact Nat.zero_le _
      | cons d lead => exact Nat.succ_le_succ (last lead tail (List.cons.inj same).2)
    next absent =>
      simp only [Option.map_eq_some_iff, Prod.mk.injEq, after?_eq_some_iff] at found
      obtain ⟨_, same, rfl, rfl⟩ := found
      refine ⟨same, fun lead tail other => ?_⟩
      cases lead with
      | nil => exact Nat.zero_le _
      | cons d lead => exact absurd (List.cons.inj other).2 (cutLast?_eq_none_iff.mp absent _ _)

theorem cutLast?_eq_some_iff :
    cutLast? mark text = some (before, rest) ↔ LastCut mark text before rest := by
  refine ⟨lastCut_of_cutLast?, fun ⟨same, last⟩ => ?_⟩
  cases found : cutLast? mark text with
  | none => exact absurd same (cutLast?_eq_none_iff.mp found before rest)
  | some cut =>
    obtain ⟨again, lastLead⟩ := lastCut_of_cutLast? found
    obtain ⟨rfl, rfl⟩ := cut_unique (same.symm.trans again)
      (Nat.le_antisymm (lastLead before rest same) (last cut.1 cut.2 again))
    rfl

end LookML.Text
