import LookML.Proofs.Headers

/-!
# Spacing twice

Every spacing of a line reads its own result, and the blanks it puts in can make a comment of
what was the body of a block.  Main statement: nothing of this shows, the result of a spacing is
left as it is by the same spacing, for properties, headers and closing braces alike.
-/

namespace LookML.Layout

open Text Code List

variable {line code again key name body : Text}

/-- Code that is spaced so that its comment can be split off is found again behind the blanks. -/
theorem splitComment_withComment (trimmed : Trimmed again) (filled : again ≠ [])
    (splits : Splits again (splitComment (trim line)).2) :
    splitComment (trim (withComment again (splitComment (trim line)).2)) =
      (again, (splitComment (trim line)).2) := by
  rw [(trimmed_withComment filled trimmed line).trim_eq]
  exact splits.splitComment_eq

theorem spaceOpener_of_cut (trimmed : Trimmed again) (admits : admitsComment again = true)
    (cut : admittedCut again = admittedCut (splitComment (trim line)).1)
    (stable : spaceOpenerCode again = again) :
    spaceOpener (withComment again (splitComment (trim line)).2) =
      withComment again (splitComment (trim line)).2 := by
  have filled : again ≠ [] := by
    rintro rfl
    cases admits
  rw [spaceOpener, splitComment_withComment trimmed filled
    ((splits_splitComment _).congr cut admits), stable]

/-- A body that is a comment becomes the comment of the header, with all that follows it. -/
theorem spaceOpener_of_commentBody (found : inlineBlock? code = some (key, name, body))
    (isComment : IsComment body) {comment : Option Text}
    (trimmed : Trimmed (withComment (spaceOpenerCode code) comment))
    (behind : ∀ text ∈ comment, IsComment text) :
    spaceOpener (withComment (spaceOpenerCode code) comment) =
      withComment (spaceOpenerCode code) comment := by
  obtain ⟨_, _, _, -, -, -, -, -, header⟩ := exists_inline found
  have opened := isHeader_headerText header []
  obtain ⟨front, same, plain, -⟩ := opened.exists_lead
  have written := spaceOpenerCode_of_inline (blockOpen?_of_header header (by simp)) found
  obtain ⟨text, rfl⟩ := head?_eq_some_iff.mp isComment.mark
  rw [blockText, if_neg (by simp)] at written
  obtain ⟨rest, isRest, whole⟩ : ∃ rest, IsComment rest ∧
      withComment (spaceOpenerCode code) comment =
        (headerText key name ++ ['{']) ++ ([' '] ++ rest) := by
    refine ⟨'#' :: text ++ (' ' :: '}' :: withComment (spacedEnd (endsSegment code)) comment),
      ⟨rfl, ?_⟩, ?_⟩
    · rw [any_append, isComment.unquoted]
      cases comment with
      | none => cases endsSegment code <;> rfl
      | some comment =>
        have unquoted := (behind comment rfl).unquoted
        cases endsSegment code <;> simpa [withComment, spacedEnd,
          terminator, isQuote] using unquoted
    · cases comment <;> simp [withComment, written, spacedEnd]
  have splits : Splits (headerText key name ++ ['{']) (some rest) := by
    refine ⟨isRest, admitsComment_of_suffix (.inl rfl) _, cutComment?_of_unmarked ?_⟩
    rw [same]
    simpa using plain
  have split := splits.splitComment_append (cons_ne_nil ' ' []) rfl
  rw [← whole] at split
  rw [spaceOpener, trimmed.trim_eq, split,
    spaceOpenerCode_of_open (blockOpen?_eq_some_iff.mpr opened), whole]
  simp [withComment]

/-- Code that is no header stays as it is. -/
theorem spaceOpener_of_plain (plain : spaceOpenerCode (splitComment (trim line)).1 =
    (splitComment (trim line)).1) : spaceOpener (spaceOpener line) = spaceOpener line := by
  have written : spaceOpener line =
      withComment (splitComment (trim line)).1 (splitComment (trim line)).2 := by
    rw [spaceOpener, plain]
  rw [written]
  rcases splitComment_cases (trim line) with
    whole | ⟨code, comment, gap, whole, -, -, -, -, admits⟩
  · rw [whole] at plain ⊢
    rw [withComment, spaceOpener, trim_trim, whole, plain]
    rfl
  · refine spaceOpener_of_cut (trimmed_code ?_) ?_ rfl plain <;> rwa [whole]

theorem spaceOpener_spaceOpener (line : Text) :
    spaceOpener (spaceOpener line) = spaceOpener line := by
  cases opened : blockOpen? (splitComment (trim line)).1 with
  | some parts =>
    have header := blockOpen?_eq_some_iff.mp opened
    have spaced := isHeader_headerText header []
    have respaced := respaced_open header spaced
    have stable := spaceOpenerCode_of_open (blockOpen?_eq_some_iff.mpr spaced)
    rw [← spaceOpenerCode_of_open opened] at respaced stable
    exact spaceOpener_of_cut respaced.trimmed respaced.admits respaced.cut stable
  | none =>
    cases inlined : inlineBlock? (splitComment (trim line)).1 with
    | some parts =>
      obtain ⟨key, name, body⟩ := parts
      by_cases isComment : IsComment body
      · obtain ⟨front, written⟩ := last_spaced_inline inlined
        refine spaceOpener_of_commentBody inlined isComment
          (trimmed_withComment (by simp [written]) (trimmed_spaced_inline inlined) line) ?_
        intro comment split
        have splits := splits_splitComment (trim line)
        rw [Option.mem_def.mp split] at splits
        exact splits.1
      · obtain ⟨respaced, -, -, stable⟩ := respaced_inline inlined isComment
        exact spaceOpener_of_cut respaced.trimmed respaced.admits respaced.cut stable
    | none =>
      cases brace : before? ['{'] (splitComment (trim line)).1 with
      | some lead =>
        have ends : ['{'].isSuffixOf (splitComment (trim line)).1 = true := by
          rw [before?_eq_some_iff.mp brace]
          exact isSuffixOf_iff_suffix.mpr (suffix_append _ _)
        obtain ⟨trimmed, cut, -, spacedEnds, stable⟩ :=
          spaced_malformed ends (trimmed_code (by simp [admitsComment, ends])) opened
        exact spaceOpener_of_cut trimmed (by simp [admitsComment, spacedEnds]) cut stable
      | none =>
        refine spaceOpener_of_plain ?_
        rw [spaceOpenerCode_of_none opened inlined brace, trimLeft_of_head (head_code line)]

theorem spaceClose_spaceClose (line : Text) : spaceClose (spaceClose line) = spaceClose line := by
  have plain (ended : Bool) : '#' ∉ '}' :: spacedEnd ended := by
    cases ended <;> decide
  have splits (ended : Bool) : Splits ('}' :: spacedEnd ended) (splitComment (trim line)).2 := by
    have source := splits_splitComment (trim line)
    cases split : (splitComment (trim line)).2 with
    | none =>
      intro cut member
      rw [cutComment?_of_unmarked (plain ended)] at member
      cases member
    | some comment =>
      rw [split] at source
      exact ⟨source.1, admitsComment_spacedEnd [] ended, cutComment?_of_unmarked (plain ended)⟩
  have trimmed (ended : Bool) : Trimmed ('}' :: spacedEnd ended) := by
    obtain ⟨c, last, solid⟩ := last_spacedEnd [] ended
    exact ⟨solid_head (c := '}') rfl rfl, solid_last last solid⟩
  rw [spaceClose_eq line]
  exact spaceClose_of_split
    (splitComment_withComment (trimmed _) (cons_ne_nil _ _) (splits _))

theorem spaceProperty_spaceProperty (line : Text) :
    spaceProperty (spaceProperty line) = spaceProperty line := by
  cases found : property? (trim line) with
  | some parts => exact spaceProperty_again found (trimmed_spaceProperty found).trim_eq
  | none =>
    rw [spaceProperty_of_none found]
    rw [← trim_trim line] at found
    rw [spaceProperty_of_none found, trim_trim]

/-- No spacing of a line changes its own result. -/
theorem spacing_idempotent (line : Text) :
    spaceProperty (spaceProperty line) = spaceProperty line ∧
      spaceOpener (spaceOpener line) = spaceOpener line ∧
      spaceClose (spaceClose line) = spaceClose line :=
  ⟨spaceProperty_spaceProperty line, spaceOpener_spaceOpener line, spaceClose_spaceClose line⟩

end LookML.Layout
