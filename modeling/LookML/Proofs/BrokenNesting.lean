import LookML.Proofs.BareReferences
import LookML.Proofs.Idempotence
import LookML.Proofs.SegmentEdits

/-!
# Texts whose nesting is broken

Where the blocks of a text cannot be trusted, its lines are written one by one.  Lines of segments
and other content stay as they are.  The others are indented and spaced: each of them is written
behind the indentation of its depth, with its own characters in their order and other blanks between
them.
-/

namespace LookML

open Text

/-- What is written for a line where the nesting is broken. -/
def Line.WrittenAs (settings : FormatSettings) (line : Line) (written : Text) : Prop :=
  match line.shape with
  | .segmentContent | .segmentClose | .content => written = line.text
  | .blank => written = []
  | .comment | .blockOpen .. | .inlineBlock .. | .blockClose | .property .. | .segmentOpen ..
  | .segmentInline .. =>
    ∃ text, written = settings.indent line.indentDepth ++ text ∧
      squash text = squash line.text ∧ Trimmed text

namespace Line.ReadAt

variable {properties : List Text} {level : Level} {line : Line}
  (read : line.ReadAt properties level) (single : '\n' ∉ line.text) (settings : FormatSettings)
include read single

theorem line_of_outside (noContent : line.shape ≠ .segmentContent)
    (noClose : line.shape ≠ .segmentClose) :
    (∃ text, settings.line line = settings.indent line.indentDepth ++ text ∧
      squash text = squash line.text ∧ Trimmed text) ∧ '\n' ∉ settings.line line := by
  rw [read.eq_outside noContent noClose] at read
  have reading := read.reading
  have same := settings.squash_line reading
  rw [settings.line_eq, settings.squash_indent] at same
  refine ⟨⟨_, settings.line_eq line, same, reading.trimmed_space single⟩, fun feed => ?_⟩
  rw [settings.line_eq] at feed
  rcases List.mem_append.mp feed with inIndent | inside
  · exact (settings.unbroken_indent _ _ inIndent).1 rfl
  · rcases reading.mem_space inside with space | inside
    · cases space
    · exact single (mem_of_mem_trim inside)

theorem writtenAs_conservativeLine :
    line.WrittenAs settings (settings.conservativeLine line) ∧
      '\n' ∉ settings.conservativeLine line := by
  have outside := read.line_of_outside single settings
  unfold WrittenAs FormatSettings.conservativeLine
  cases shape : line.shape with
  | segmentContent | segmentClose | content => exact ⟨rfl, single⟩
  | blank => exact ⟨rfl, List.not_mem_nil⟩
  | comment | blockOpen | inlineBlock | blockClose | property | segmentOpen | segmentInline =>
    exact outside (by simp [shape]) (by simp [shape])

end Line.ReadAt

namespace FormatSettings

variable {settings : FormatSettings} {text : Text}

/-- Where the nesting is broken every line is written by itself: the written lines are the images
of the lines of the text, one for one and in their order. -/
theorem writtenAs_formatText
    (broken : (Document.ofText settings.segmentProperties text).nestingBroken = true) :
    List.Forall₂ (Line.WrittenAs settings) (Lexed.ofText settings.segmentProperties text).lines
      (split '\n' (settings.formatText text)) := by
  have each : ∀ line ∈ (Lexed.ofText settings.segmentProperties text).lines,
      line.WrittenAs settings (settings.conservativeLine line) ∧
        '\n' ∉ settings.conservativeLine line := by
    intro line member
    obtain ⟨level, read⟩ := (Lexed.run_ofText _ _).exists_of_mem member
    exact read.writtenAs_conservativeLine
      (feedless_lines text _ (Lexed.text_mem_lines member)) settings
  have occupied : (Lexed.ofText settings.segmentProperties text).lines ≠ [] := by
    intro none_
    have empty : text.lines = [] := by
      rw [← Nesting.text_classify settings.segmentProperties {} 0 text.lines]
      exact List.map_eq_nil_iff.mpr none_
    have nothing : text = [] := by
      by_contra some_
      rw [lines_of_ne_nil some_] at empty
      exact splitBreaks_ne_nil text empty
    subst nothing
    cases broken
  have splits : split '\n' (settings.formatText text) =
      (Lexed.ofText settings.segmentProperties text).lines.map settings.conservativeLine := by
    rw [formatText_of_broken broken, formatConservative, joinLines,
      ← List.append_nil (joinWith _ _),
      Lint.split_joinWith_append (mt List.map_eq_nil_iff.mp occupied)
        (List.forall_mem_map.mpr fun line member => (each line member).2) (by simp)]
    exact List.append_nil _
  rw [splits, List.forall₂_map_right_iff, List.forall₂_same]
  exact fun line member => (each line member).1

end FormatSettings

/-- A view whose first field is never closed, with a segment and a line that nothing reads. -/
def unclosedField : Text :=
  ("view:  v \x7b\n dimension :id\x7b\n\n  sql:  a\n    and  b ;;\n" ++
    "  %  c\n#  d\n   type:string\n\x7d").toList

theorem FormatSettings.writtenAs_formatText_unclosedField :
    (Document.ofText ({} : FormatSettings).segmentProperties unclosedField).nestingBroken = true ∧
      List.Forall₂ (Line.WrittenAs {})
        (Lexed.ofText ({} : FormatSettings).segmentProperties unclosedField).lines
        (split '\n' (({} : FormatSettings).formatText unclosedField)) :=
  have broken : (Document.ofText ({} : FormatSettings).segmentProperties
      unclosedField).nestingBroken = true := by decide +kernel
  ⟨broken, writtenAs_formatText broken⟩

end LookML
