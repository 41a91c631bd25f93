import LookML.Proofs.Code

/-!
# Where a comment begins

A comment begins at the first blank with the mark of comments behind it, provided no quote
comes later.  What stands before and behind such a place does not move it.
-/

namespace LookML.Code

open Text List

variable {lead gap text : Text}

/-- The text before a comment with more text in front of it. -/
def prepend (lead : Text) (cut : Text × Text) : Text × Text :=
  (lead ++ cut.1, cut.2)

theorem not_isComment_cons {c : Char} (other : c ≠ '#') (text : Text) :
    ¬ IsComment (c :: text) := by
  intro comment
  exact other (Option.some.inj comment.mark)

theorem commentAfterBlanks?_of_solid {c : Char} (solid : isBlank c = false) (text : Text) :
    commentAfterBlanks? (c :: text) = none := by
  cases found : commentAfterBlanks? (c :: text) with
  | none => rfl
  | some comment =>
    obtain ⟨-, gap, occupied, blank, same⟩ := commentAfterBlanks?_eq_some_iff.mp found
    exact absurd (eq_nil_of_solid blank (solid_head (by rw [← same]; rfl) solid)) occupied

theorem cutComment?_cons_of_none {c : Char} (absent : commentAfterBlanks? (c :: text) = none) :
    cutComment? (c :: text) = (cutComment? text).map (prepend [c]) := by
  rw [cutComment?_cons, absent]
  rfl

theorem map_prepend (first second : Text) (cut : Option (Text × Text)) :
    (cut.map (prepend second)).map (prepend first) = cut.map (prepend (first ++ second)) := by
  cases cut with
  | none => rfl
  | some cut => simp [prepend]

@[simp] theorem map_prepend_nil (cut : Option (Text × Text)) : cut.map (prepend []) = cut := by
  cases cut <;> rfl

/-- No comment begins at the end of blanks, unless one follows. -/
theorem cutComment?_gap (blank : allBlank gap = true) (solid : ∀ c ∈ text.head?, isBlank c = false)
    (other : ¬ IsComment text) :
    cutComment? (gap ++ text) = (cutComment? text).map (prepend gap) := by
  induction gap with
  | nil => exact (map_prepend_nil _).symm
  | cons b gap ih =>
    have rest : allBlank gap = true := by
      simp only [allBlank_cons, Bool.and_eq_true] at blank
      exact blank.2
    have absent : commentAfterBlanks? (b :: (gap ++ text)) = none := by
      cases found : commentAfterBlanks? (b :: (gap ++ text)) with
      | none => rfl
      | some comment =>
        obtain ⟨isComment, front, -, blankFront, same⟩ := commentAfterBlanks?_eq_some_iff.mp found
        have trimmed := congrArg trimLeft same
        rw [← cons_append, trimLeft_append_of_allBlank blank, trimLeft_of_head solid,
          trimLeft_append_of_allBlank blankFront, trimLeft_of_head] at trimmed
        · exact absurd (trimmed ▸ isComment) other
        · exact solid_head isComment.mark rfl
    rw [cons_append, cutComment?_cons_of_none absent, ih rest, map_prepend]
    rfl

/-- Blanks and a comment. -/
theorem cutComment?_comment (occupied : gap ≠ []) (blank : allBlank gap = true)
    (comment : IsComment text) : cutComment? (gap ++ text) = some ([], text) := by
  obtain ⟨b, more, rfl⟩ := exists_cons_of_ne_nil occupied
  have found := commentAfterBlanks?_eq_some_iff.mpr ⟨comment, b :: more, occupied, blank, rfl⟩
  rw [cons_append] at found ⊢
  rw [cutComment?_cons, found]

/-- No comment begins where there is no mark. -/
theorem cutComment?_append (plain : '#' ∉ lead) (solid : ∀ c ∈ lead.getLast?, isBlank c = false)
    (text : Text) : cutComment? (lead ++ text) = (cutComment? text).map (prepend lead) := by
  induction lead with
  | nil => exact (map_prepend_nil _).symm
  | cons c lead ih =>
    have later := ih (fun member => plain (mem_cons_of_mem _ member)) (by
      intro d last
      apply solid d
      rw [getLast?_cons, Option.mem_def.mp last]
      rfl)
    have absent : commentAfterBlanks? (c :: (lead ++ text)) = none := by
      cases blank : isBlank c with
      | false => exact commentAfterBlanks?_of_solid blank _
      | true =>
        cases found : commentAfterBlanks? (c :: (lead ++ text)) with
        | none => rfl
        | some comment =>
          exfalso
          obtain ⟨isComment, gap, -, blankGap, same⟩ :=
            commentAfterBlanks?_eq_some_iff.mp found
          obtain ⟨rest, rfl⟩ := head?_eq_some_iff.mp isComment.mark
          -- The blanks end within the lead, since its last character is none.
          have filled : allBlank (c :: lead) = false := by
            rw [Bool.eq_false_iff]
            intro empty
            obtain ⟨d, last⟩ := getLast?_isSome.mpr (cons_ne_nil c lead)
              |> Option.isSome_iff_exists.mp
            have final := solid d last
            rw [allBlank_iff.mp empty d (mem_of_getLast? last)] at final
            cases final
          rw [← cons_append] at same
          rcases append_eq_append_iff.mp same with ⟨more, rfl, -⟩ | ⟨more, whole, behind⟩
          · rw [allBlank_append, filled] at blankGap
            cases blankGap
          · cases more with
            | nil =>
              rw [whole, append_nil, blankGap] at filled
              cases filled
            | cons d more =>
              obtain ⟨rfl, -⟩ := cons.inj behind
              exact plain (by rw [whole]; simp)
    rw [cons_append, cutComment?_cons_of_none absent, later, map_prepend]
    rfl

theorem commentAfterBlanks?_append (occupied : lead ≠ [])
    (solid : ∀ c ∈ lead.getLast?, isBlank c = false) (unquoted : text.any isQuote = false) :
    commentAfterBlanks? (lead ++ text) = (commentAfterBlanks? lead).map (· ++ text) := by
  obtain ⟨front, d, rfl⟩ := (eq_nil_or_concat lead).resolve_left occupied
  rw [concat_eq_append] at solid ⊢
  have last : isBlank d = false := solid d (by simp)
  rw [append_assoc, singleton_append, commentAfterBlanks?, commentAfterBlanks?,
    trimLeft_append_of_solid last, trimLeft_append_of_solid last]
  have head : (trimLeft front ++ d :: text).head? = (trimLeft front ++ [d]).head? := by
    rw [head?_append, head?_append]
    rfl
  have quotes : (trimLeft front ++ d :: text).any isQuote =
      (trimLeft front ++ [d]).any isQuote := by
    simp [unquoted]
  have shorter : (trimLeft front ++ d :: text).length < (front ++ d :: text).length ↔
      (trimLeft front ++ [d]).length < (front ++ [d]).length := by
    simp only [length_append, length_cons]
    omega
  simp only [head, quotes, shorter]
  split
  · simp
  · rfl

/-- Text without quotes behind a text that ends with no blank. -/
theorem cutComment?_append_unquoted (solid : ∀ c ∈ lead.getLast?, isBlank c = false)
    (unquoted : text.any isQuote = false) :
    cutComment? (lead ++ text) =
      match cutComment? lead with
      | some (code, comment) => some (code, comment ++ text)
      | none => (cutComment? text).map (prepend lead) := by
  induction lead with
  | nil => exact (map_prepend_nil _).symm
  | cons c lead ih =>
    have later := ih (by
      intro d last
      apply solid d
      rw [getLast?_cons, Option.mem_def.mp last]
      rfl)
    have here := commentAfterBlanks?_append (cons_ne_nil c lead) solid unquoted
    rw [cons_append] at here ⊢
    cases found : commentAfterBlanks? (c :: lead) with
    | some comment =>
      rw [found] at here
      rw [cutComment?_cons, here, cutComment?_cons, found]
      rfl
    | none =>
      rw [found] at here
      rw [cutComment?_cons_of_none here, later, cutComment?_cons_of_none found]
      cases cutComment? lead with
      | none => exact map_prepend _ _ _
      | some cut => rfl

end LookML.Code
