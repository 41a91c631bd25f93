import LookML.Layout
import LookML.Proofs.Code
import LookML.Proofs.Reading

/-!
# Spacing moves blanks only

Whatever the spacing of properties, headers and closing braces does to a line, the
line without its blanks stays the same.
-/

namespace LookML.Layout

open Text Code List

variable {key name line code : Text}

theorem squash_of_header {text body : Text} (header : IsHeader text key name body) :
    squash text = squash key ++ ':' :: (squash name ++ '{' :: squash body) := by
  obtain ⟨first, second, third, blankFirst, blankSecond, blankThird, rfl⟩ := header.spaced
  have colon : isBlank ':' = false := rfl
  have brace : isBlank '{' = false := rfl
  simp [squash_cons, colon, brace, squash_of_allBlank blankFirst, squash_of_allBlank blankSecond,
    squash_of_allBlank blankThird]

theorem squash_headerText (key name : Text) :
    squash (headerText key name) = squash key ++ ':' :: squash name := by
  have colon : isBlank ':' = false := rfl
  unfold headerText
  split
  next empty =>
    rw [List.isEmpty_iff.mp empty]
    simp [squash_cons, colon]
  next => simp [squash_cons, colon]

theorem squash_terminator : squash terminator = terminator := rfl

/-- What is written behind the colon of a property. -/
def spaceValue (value : Text) : Text :=
  match before? terminator (trim value) with
  | some content =>
    if (trim content).isEmpty then ' ' :: terminator
    else ' ' :: (trim content ++ ' ' :: terminator)
  | none => if (trim value).isEmpty then [] else ' ' :: trim value

theorem spaceProperty_of_some {value : Text} (found : property? (trim line) = some (key, value)) :
    spaceProperty line = key ++ ':' :: spaceValue value := by
  simp only [spaceProperty, found, spaceValue]
  cases before? terminator (trim value) with
  | none | some content => dsimp only; split <;> simp

theorem spaceProperty_of_none (absent : property? (trim line) = none) :
    spaceProperty line = trim line := by
  simp only [spaceProperty, absent]

@[simp] theorem squash_spaceValue (value : Text) : squash (spaceValue value) = squash value := by
  rw [spaceValue, ← squash_trim value]
  split
  next content ended =>
    rw [before?_eq_some_iff.mp ended, squash_append, squash_terminator, ← squash_trim content]
    split
    next empty => simp [List.isEmpty_iff.mp empty, squash_cons, squash_terminator]
    next => simp [squash_cons, squash_terminator]
  next =>
    split
    next empty => rw [List.isEmpty_iff.mp empty]
    next => simp [squash_cons]

@[simp] theorem squash_spaceProperty (line : Text) : squash (spaceProperty line) = squash line := by
  cases found : property? (trim line) with
  | none => rw [spaceProperty_of_none found, squash_trim]
  | some property =>
    obtain ⟨key, value⟩ := property
    obtain ⟨rest, keyed, -, rfl, -⟩ := property?_eq_some_iff.mp found
    obtain ⟨-, gap, spaced, same⟩ := key?_eq_some_iff.mp keyed
    rw [spaceProperty_of_some found, ← squash_trim line, same]
    simp [squash_cons, squash_of_allBlank spaced]

/-- The end of a block on one line tells whether its code ends with the terminator. -/
theorem endsSegment_of_isBlockEnd (lead : Text) {tail : Text} (ends : isBlockEnd tail = true) :
    (endsSegment (lead ++ '}' :: tail) = true ∧ squash tail = terminator) ∨
      (endsSegment (lead ++ '}' :: tail) = false ∧ squash tail = []) := by
  obtain ⟨gap, spaced, rfl | rfl⟩ := isBlockEnd_iff.mp ends
  · refine .inr ⟨?_, squash_of_allBlank spaced⟩
    apply Bool.eq_false_iff.mpr
    intro ended
    obtain ⟨front, same⟩ := isSuffixOf_iff_suffix.mp ended
    rw [append_cons] at same
    have last : (lead ++ ['}'] ++ tail).getLast? ≠ some ';' :=
      getLast?_append_ne spaced rfl (by simp)
    rw [← same, getLast?_append] at last
    exact last rfl
  · refine .inl ⟨?_, by simp [squash_of_allBlank spaced, squash_terminator]⟩
    apply isSuffixOf_iff_suffix.mpr
    exact ⟨lead ++ '}' :: gap, by simp⟩

/-- A block on one line, from brace to brace. -/
def blockText (body : Text) : Text :=
  if body.isEmpty then ['{', '}'] else '{' :: ' ' :: (body ++ [' ', '}'])

@[simp] theorem squash_blockText (body : Text) :
    squash (blockText body) = '{' :: (squash body ++ ['}']) := by
  have brace : isBlank '{' = false := rfl
  have closing : isBlank '}' = false := rfl
  unfold blockText
  split
  next empty => simp [squash_cons, brace, closing, List.isEmpty_iff.mp empty]
  next => simp [squash_cons, brace, closing]

theorem spaceOpenerCode_of_open (opened : blockOpen? code = some (key, name)) :
    spaceOpenerCode code = headerText key name ++ ['{'] := by
  simp only [spaceOpenerCode, opened]

theorem spaceOpenerCode_of_inline {body : Text} (opened : blockOpen? code = none)
    (inlined : inlineBlock? code = some (key, name, body)) :
    spaceOpenerCode code =
      headerText key name ++
        (blockText body ++ if endsSegment code then ' ' :: terminator else []) := by
  simp only [spaceOpenerCode, opened, inlined, blockText]
  split <;> split <;> simp

theorem spaceOpenerCode_of_other {lead : Text} (opened : blockOpen? code = none)
    (inlined : inlineBlock? code = none) (ended : before? ['{'] code = some lead) :
    spaceOpenerCode code = trimLeft (trimRight lead ++ [' ', '{']) := by
  simp only [spaceOpenerCode, opened, inlined, ended]

theorem spaceOpenerCode_of_none (opened : blockOpen? code = none)
    (inlined : inlineBlock? code = none) (ended : before? ['{'] code = none) :
    spaceOpenerCode code = trimLeft code := by
  simp only [spaceOpenerCode, opened, inlined, ended]

theorem squash_spaceOpenerCode (code : Text) : squash (spaceOpenerCode code) = squash code := by
  have brace : isBlank '{' = false := rfl
  have closing : isBlank '}' = false := rfl
  cases opened : blockOpen? code with
  | some block =>
    rw [spaceOpenerCode_of_open opened, squash_of_header (blockOpen?_eq_some_iff.mp opened)]
    simp [squash_headerText, squash_cons, brace]
  | none =>
    cases inlined : inlineBlock? code with
    | some block =>
      obtain ⟨key, name, body⟩ := block
      obtain ⟨inner, tail, header, ends, -, rfl⟩ := inlineBlock?_eq_some_iff.mp inlined
      obtain ⟨first, second, third, -, -, -, same⟩ := header.spaced
      have code_eq : code =
          (key ++ first ++ ':' :: second ++ name ++ third ++ '{' :: inner) ++ '}' :: tail := by
        simp [same]
      rw [spaceOpenerCode_of_inline opened inlined, squash_of_header header, code_eq]
      rcases endsSegment_of_isBlockEnd _ ends with ⟨ended, tail_eq⟩ | ⟨ended, tail_eq⟩
      · rw [ended]
        simp [squash_headerText, squash_cons, closing, tail_eq, squash_terminator]
      · rw [ended]
        simp [squash_headerText, squash_cons, closing, tail_eq]
    | none =>
      cases ended : before? ['{'] code with
      | some lead =>
        rw [spaceOpenerCode_of_other opened inlined ended, before?_eq_some_iff.mp ended]
        simp [squash_cons]
      | none => rw [spaceOpenerCode_of_none opened inlined ended, squash_trimLeft]

theorem squash_withComment {text : Text} (same : squash text = squash code) (line : Text)
    (split : code = (splitComment (trim line)).1) :
    squash (withComment text (splitComment (trim line)).2) = squash line := by
  rw [← squash_trim line]
  rcases splitComment_cases (trim line) with whole | ⟨_, comment, gap, whole, -, -, spaced, cut, -⟩
  · rw [whole] at split ⊢
    rw [withComment, same, split]
  · rw [whole] at split ⊢
    rw [withComment, cut]
    simp [squash_cons, same, split, squash_of_allBlank spaced]

@[simp] theorem squash_spaceOpener (line : Text) : squash (spaceOpener line) = squash line :=
  squash_withComment (squash_spaceOpenerCode _) line rfl

theorem squash_spaceClose (closes : isBlockClose (splitComment (trim line)).1 = true) :
    squash (spaceClose line) = squash line := by
  have closing : isBlank '}' = false := rfl
  refine squash_withComment ?_ line rfl
  obtain ⟨tail, same, ends⟩ := isBlockClose_iff.mp closes
  rw [same]
  rcases endsSegment_of_isBlockEnd [] ends with ⟨ended, tail_eq⟩ | ⟨ended, tail_eq⟩
  · rw [nil_append] at ended
    simp [ended, squash_cons, closing, tail_eq, squash_terminator]
  · rw [nil_append] at ended
    simp [ended, squash_cons, closing, tail_eq]

theorem squash_stripTerminator {value : Text} (trimmed : Trimmed value)
    (ended : endsSegment value = true) :
    squash value = squash (stripTerminator value) ++ terminator := by
  obtain ⟨inner, rfl⟩ := isSuffixOf_iff_suffix.mp ended
  have cut : before? terminator (inner ++ terminator) = some inner := before?_eq_some_iff.mpr rfl
  simp only [stripTerminator, trimmed.trim_eq, cut, Option.getD_some, squash_trim, squash_append]
  rfl

end LookML.Layout

namespace LookML.FormatSettings

open Text List

theorem allBlank_indent (settings : FormatSettings) (depth : Nat) :
    allBlank (settings.indent depth) = true := by
  rw [allBlank_iff]
  intro c member
  unfold indent at member
  split at member
  · rw [eq_of_mem_replicate member]
    rfl
  · rw [eq_of_mem_replicate member]
    rfl

theorem squash_indent (settings : FormatSettings) (depth : Nat) (text : Text) :
    squash (settings.indent depth ++ text) = squash text := by
  rw [squash_append, squash_of_allBlank (settings.allBlank_indent depth), nil_append]

theorem allBlank_unit (settings : FormatSettings) (property : Text) :
    allBlank (settings.style property).unit = true := by
  have unit : (settings.style property).unit = settings.indent 1 := by
    simp [style, indentUnit, indent]
  rw [unit]
  exact settings.allBlank_indent 1

theorem squash_line (settings : FormatSettings) {properties : List Text} {line : Line}
    (reading : Shape.Reading properties line.text line.shape) :
    squash (settings.line line) = squash line.text := by
  rw [FormatSettings.line, squash_indent]
  cases shape : line.shape with
  | blockOpen key name | inlineBlock key name body => exact Layout.squash_spaceOpener _
  | blockClose =>
    rw [shape] at reading
    cases reading with
    | blockClose _ closes => exact Layout.squash_spaceClose closes
  | property key value | segmentOpen key value | segmentInline key value =>
    exact Layout.squash_spaceProperty _
  | _ => exact squash_trim _

/-- A line by itself that is not blank is written as one line that says the same. -/
theorem exists_single (settings : FormatSettings) (verbatim : Bool)
    {properties : List Text} {line : Line}
    (reading : Shape.Reading properties line.text line.shape) (solid : line.shape ≠ .blank) :
    ∃ text, settings.entry verbatim (.single line) = [text] ∧ squash text = squash line.text := by
  unfold entry
  dsimp only
  split
  · next empty => exact absurd empty solid
  · exact ⟨_, rfl, squash_trimRight _⟩
  · split
    · exact ⟨_, rfl, squash_trimRight _⟩
    · exact ⟨_, rfl, settings.squash_line reading⟩
  · exact ⟨_, rfl, settings.squash_line reading⟩

end LookML.FormatSettings
