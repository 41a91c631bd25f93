import LookML.Proofs.Resemblance

/-!
# Segments are opaque

Inside a segment a line means nothing, whatever it looks like, unless it ends the segment.  So
any line there can be written anew: the two texts are read in lockstep, and their documents
differ only in the lines that were written and in the values of their segments.
-/

namespace LookML

open Text Code

/-- What may be written in the place of a line.  Inside a segment this is any text that ends
the segment exactly if the line does, and elsewhere only the line itself. -/
def Line.Admits (line : Line) (written : Text) : Prop :=
  written = line.text ∨
    (line.shape = .segmentContent ∧ endsSegment (trim written) = false) ∨
    (line.shape = .segmentClose ∧ endsSegment (trim written) = true)

instance (line : Line) (written : Text) : Decidable (line.Admits written) :=
  inferInstanceAs (Decidable (_ ∨ _ ∨ _))

/-- A line inside a segment with the text that stands in its place. -/
def Line.rewriteBy (texts : List Text) (line : Line) : Line :=
  if line.shape = .segmentContent ∨ line.shape = .segmentClose then
    { line with text := texts[line.number]?.getD line.text }
  else line

theorem Line.rewriteBy_eq (texts : List Text) (line : Line) :
    line.rewriteBy texts = { line with text := (line.rewriteBy texts).text } := by
  unfold rewriteBy
  split <;> rfl

theorem Line.rewrites_rewriteBy (texts : List Text) : Line.Rewrites (rewriteBy texts) where
  number := fun line => by rw [rewriteBy_eq]
  depth := fun line => by rw [rewriteBy_eq]
  frame := fun line => by
    rw [rewriteBy_eq]
    exact .refl line.shape
  elsewhere := fun line outside => by
    refine if_neg fun inside => ?_
    rcases inside with content | close
    · rw [content] at outside
      cases outside
    · rw [close] at outside
      cases outside

section Lockstep

variable {properties : List Text} {all : List Text} {nesting : Nesting} {number : Nat}

/-- A line that was written anew is read as before. -/
theorem Nesting.line_eq_rewriteBy {text written : Text}
    (admits : (nesting.line properties number text).Admits written)
    (place : all[number]? = some written) :
    nesting.line properties number written =
      (nesting.line properties number text).rewriteBy all := by
  have read := nesting.readAt_line properties number text
  have again : (nesting.line properties number written).shape =
      nesting.level.shape properties written :=
    (nesting.readAt_line properties number written).shape
  -- A line inside a segment takes its new text, and is read as what it was.
  have rewritten (inside : (nesting.line properties number text).shape = .segmentContent ∨
      (nesting.line properties number text).shape = .segmentClose)
      (shape : (nesting.line properties number written).shape =
        (nesting.line properties number text).shape) :
      nesting.line properties number written =
        (nesting.line properties number text).rewriteBy all := by
    have text : all[(nesting.line properties number text).number]? = some written := place
    rw [Line.rewriteBy, if_pos inside, text, ← shape]
    rfl
  rcases admits with same | ⟨content, goesOn⟩ | ⟨close, ends⟩
  · obtain rfl : written = text := same
    by_cases inside : (nesting.line properties number written).shape = .segmentContent ∨
        (nesting.line properties number written).shape = .segmentClose
    · exact rewritten inside rfl
    · rw [Line.rewriteBy, if_neg inside]
  · obtain ⟨property, inside⟩ := read.inside_of_shape (.inl content)
    refine rewritten (.inl content) (again.trans ?_)
    simp [Level.shape, inside, Shape.readInSegment, goesOn, content]
  · obtain ⟨property, inside⟩ := read.inside_of_shape (.inr close)
    refine rewritten (.inr close) (again.trans ?_)
    simp [Level.shape, inside, Shape.readInSegment, ends, close]

/-- Texts that a state admits line by line are read in lockstep. -/
theorem Nesting.classify_eq_map_rewriteBy {texts others : List Text}
    (place : all.drop number = others)
    (replaced : List.Forall₂ Line.Admits (nesting.classify properties number texts) others) :
    nesting.classify properties number others =
      (nesting.classify properties number texts).map (Line.rewriteBy all) := by
  induction texts generalizing nesting number others with
  | nil =>
    cases replaced
    rfl
  | cons text texts ih =>
    cases replaced with
    | @cons _ written _ others here later =>
      have found : all[number]? = some written := by
        rw [← List.head?_drop, place, List.head?_cons]
      have rest : all.drop (number + 1) = others := by
        rw [← List.tail_drop, place, List.tail_cons]
      have line := line_eq_rewriteBy here found
      have next : nesting.advance (nesting.line properties number written) =
          nesting.advance (nesting.line properties number text) := by
        rw [line, Line.rewriteBy_eq]
        rfl
      rw [classify, classify, next, ih rest later, List.map_cons, line]

end Lockstep

/-- Lines inside segments can be written anew without a trace beyond their segments: every line
is read as before, the anomalies are the same, and so is the document under the new texts. -/
theorem Document.rewritten_of_admits (properties : List Text) (first second : Text)
    (replaced : List.Forall₂ Line.Admits (Lexed.ofText properties first).lines second.lines) :
    (Lexed.ofText properties second).lines =
        (Lexed.ofText properties first).lines.map (Line.rewriteBy second.lines) ∧
      (Lexed.ofText properties second).anomalies = (Lexed.ofText properties first).anomalies ∧
      Document.Rewritten (.ofText properties first) (Line.rewriteBy second.lines)
        (.ofText properties first) (.ofText properties second) := by
  have rewrites := Line.rewrites_rewriteBy second.lines
  have lines : (Lexed.ofText properties second).lines =
      (Lexed.ofText properties first).lines.map (Line.rewriteBy second.lines) :=
    Nesting.classify_eq_map_rewriteBy List.drop_zero replaced
  exact ⟨lines, Lexed.anomalies_rewrite rewrites lines,
    Document.rewritten_of_lines rewrites lines⟩

/-- A view with a segment over three lines, given the last two. -/
def sqlView (content closing : String) : Text :=
  ("view: v \x7b\n  dimension: d \x7b\n    sql: CASE\n" ++ content ++ "\n" ++ closing ++
    "\n  \x7d\n\x7d").toList

/-- Braces, headers and comments in a segment are no more than its text. -/
theorem rewritten_sqlView :
    List.Forall₂ Line.Admits
        (Lexed.ofText ["sql".toList] (sqlView "      WHEN a THEN b" "    END ;;")).lines
        (sqlView "\x7d # measure: m \x7b" "measure: m \x7b ;;").lines ∧
      Document.Rewritten (.ofText ["sql".toList] (sqlView "      WHEN a THEN b" "    END ;;"))
        (Line.rewriteBy (sqlView "\x7d # measure: m \x7b" "measure: m \x7b ;;").lines)
        (.ofText ["sql".toList] (sqlView "      WHEN a THEN b" "    END ;;"))
        (.ofText ["sql".toList] (sqlView "\x7d # measure: m \x7b" "measure: m \x7b ;;")) := by
  have replaced : List.Forall₂ Line.Admits
      (Lexed.ofText ["sql".toList] (sqlView "      WHEN a THEN b" "    END ;;")).lines
      (sqlView "\x7d # measure: m \x7b" "measure: m \x7b ;;").lines := by
    decide +kernel
  exact ⟨replaced, (Document.rewritten_of_admits _ _ _ replaced).2.2⟩

end LookML
