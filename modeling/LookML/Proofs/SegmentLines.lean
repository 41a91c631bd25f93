import LookML.Layout
import LookML.Proofs.Code
import LookML.Proofs.Separation

/-!
# The lines of a segment

The layout of a segment keeps what its lines say: markup up to blanks, SQL up to blanks
and the case of keywords.  A closing line is cut before its terminator.
-/

namespace LookML

open Text Code List

namespace Sql

namespace Style

/-- A text that a style keeps: markup up to blanks, SQL up to blanks and the case of
keywords. -/
structure Keeps (style : Style) (source image : Text) : Prop where
  recased : List.Forall₂ Recased (squash source) (squash image)
  exact : style.markup = true → squash image = squash source

variable {style : Style} {source image : Text}

theorem Keeps.of_squash (same : squash image = squash source) : style.Keeps source image where
  recased := same ▸ forall₂_refl _
  exact _ := same

theorem Keeps.of_squash_left {other : Text} (keeps : style.Keeps source image)
    (same : squash other = squash source) : style.Keeps other image where
  recased := same ▸ keeps.recased
  exact markup := (keeps.exact markup).trans same.symm

theorem Keeps.of_squash_right {other : Text} (keeps : style.Keeps source image)
    (same : squash other = squash image) : style.Keeps source other where
  recased := same ▸ keeps.recased
  exact markup := same.trans (keeps.exact markup)

theorem Keeps.append {more other : Text} (first : style.Keeps source image)
    (second : style.Keeps more other) : style.Keeps (source ++ more) (image ++ other) where
  recased := by
    rw [squash_append, squash_append]
    exact rel_append first.recased second.recased
  exact markup := by
    rw [squash_append, squash_append, first.exact markup, second.exact markup]

theorem Keeps.allBlank_eq (keeps : style.Keeps source image) :
    allBlank image = allBlank source := by
  have length := keeps.recased.length_eq
  rw [Bool.eq_iff_iff, ← squash_eq_nil_iff, ← squash_eq_nil_iff, ← length_eq_zero_iff,
    ← length_eq_zero_iff, length]

theorem keeps_restyle (style : Style) (pending : Option Text) (text : Text) :
    style.Keeps text (style.restyle pending text).1 := by
  unfold restyle
  split
  next =>
    dsimp only
    split
    · exact .of_squash rfl
    · split
      · exact .of_squash (by simp)
      · exact .of_squash (by simp)
  next sql =>
    exact ⟨(loosened_spellLine pending text).recased, fun markup => absurd markup sql⟩

theorem allBlank_indent (blank : allBlank style.unit = true) (depth : Nat) :
    allBlank (style.indent depth) = true := by
  rw [allBlank_iff] at blank ⊢
  intro c member
  obtain ⟨unit, repeated, inUnit⟩ := mem_flatten.mp member
  rw [eq_of_mem_replicate repeated] at inUnit
  exact blank c inUnit

theorem squash_indent (blank : allBlank style.unit = true) (depth : Nat) (text : Text) :
    squash (style.indent depth ++ text) = squash text := by
  rw [squash_append, squash_of_allBlank (allBlank_indent blank depth), nil_append]

theorem keeps_bodyLine (blank : allBlank style.unit = true) (depth : Nat)
    (pending : Option Text) (text : Text) :
    style.Keeps text (style.bodyLine depth pending text).1 := by
  have restyled := (style.keeps_restyle none (trimLeft text)).of_squash_left
    (squash_trimLeft text).symm
  unfold bodyLine
  split
  · exact .of_squash rfl
  · split
    next empty => exact .of_squash (squash_of_allBlank empty).symm
    · split
      · exact .of_squash (by rw [squash_indent blank, squash_trim])
      · dsimp only
        split
        · exact restyled.of_squash_right (squash_indent blank _ _)
        · exact restyled.of_squash_right (squash_indent blank _ _)

theorem keeps_headLine (blank : allBlank style.unit = true) (segment : Segment)
    {text value : Text} (keeps : style.Keeps value text) :
    style.Keeps (segment.property ++ ':' :: value) (style.headLine segment text) := by
  have solid : style.Keeps (segment.property ++ [':']) (style.indent segment.depth
      ++ segment.property ++ [':']) := by
    refine .of_squash ?_
    rw [append_assoc, squash_indent blank]
  have whole := solid.append keeps
  rw [append_assoc, singleton_append] at whole
  refine whole.of_squash_right ?_
  unfold headLine
  dsimp only
  split
  next empty =>
    rw [List.isEmpty_iff.mp empty]
    simp
  next => simp [squash_cons]

theorem segmentLines_inline (style : Style) (property value : Text) (line : Line) :
    style.segmentLines ⟨property, value, true, line, [], none⟩ =
      [style.headLine ⟨property, value, true, line, [], none⟩
          (style.restyle none (stripTerminator value)).1 ++ ' ' :: terminator] := by
  simp [segmentLines]

theorem segmentLines_closed (style : Style) (property value : Text) (opening : Line)
    (body : List Line) (closing : Line) :
    style.segmentLines ⟨property, value, false, opening, body, some closing⟩ =
      style.headLine ⟨property, value, false, opening, body, some closing⟩
          (style.restyle none value).1
        :: (style.bodyLines opening.depth (style.restyle none value).2
              (body.map Line.text ++ (closingText? closing.text).toList)
          ++ [style.indent opening.depth ++ terminator]) := by
  cases text : closingText? closing.text <;> simp [segmentLines, Segment.depth, text]

theorem segmentLines_unfinished (style : Style) (property value : Text) (opening : Line)
    (body : List Line) :
    style.segmentLines ⟨property, value, false, opening, body, none⟩ =
      style.headLine ⟨property, value, false, opening, body, none⟩ (style.restyle none value).1
        :: style.bodyLines opening.depth (style.restyle none value).2 (body.map Line.text) := by
  simp [segmentLines, Segment.depth]

end Style

end Sql

namespace Code

/-- The terminator of a closing line is its last one, with blanks behind it. -/
theorem cutLast?_of_endsSegment {text : Text} (ended : endsSegment (trim text) = true) :
    ∃ before tail, cutLast? terminator text = some (before, tail) ∧ allBlank tail = true ∧
      text = before ++ (terminator ++ tail) ∧ trim text = trimLeft before ++ terminator := by
  obtain ⟨inner, same⟩ := isSuffixOf_iff_suffix.mp ended
  obtain ⟨lead, tail, blankLead, blankTail, whole⟩ := exists_trim text
  rw [← same] at whole
  have text_eq : text = (lead ++ inner) ++ (terminator ++ tail) := by
    rw [whole]
    simp
  refine ⟨lead ++ inner, tail, ?_, blankTail, text_eq, ?_⟩
  · refine cutLast?_eq_some_iff.mpr ⟨text_eq, fun front rest other => ?_⟩
    have solid : ';' ∉ tail := not_mem_of_allBlank blankTail rfl
    rw [text_eq] at other
    -- a later terminator would reach into the blanks
    rcases append_eq_append_iff.mp other with ⟨more, rfl, behind⟩ | ⟨more, shorter, -⟩
    · rcases more with - | ⟨a, - | ⟨b, more⟩⟩
      · simp
      · simp only [terminator, cons_append, nil_append, List.cons.injEq] at behind
        rw [behind.2.2] at solid
        simp at solid
      · simp only [terminator, cons_append, nil_append, List.cons.injEq] at behind
        rw [behind.2.2] at solid
        simp at solid
    · rw [shorter, length_append]
      exact Nat.le_add_right _ _
  · rw [trimLeft_append_of_allBlank blankLead, trimLeft_of_head, same]
    intro c head
    refine (trimmed_trim text).head c ?_
    rw [← same]
    exact mem_head?_append_of_mem_head? head

end Code

end LookML
