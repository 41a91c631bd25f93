import LookML.Line.Lexer
import LookML.Proofs.Blank
import LookML.Proofs.Level

/-!
# How a line outside segments is read

The tests that classify a line are tried in a fixed order.  For every outcome, the
relation below lists the tests that led to it.
-/

namespace LookML

open Text Code

/-- A stripped line that is neither blank nor a comment. -/
def Code.IsCode (text : Text) : Prop :=
  ∃ c ∈ text.head?, c ≠ '#'

namespace Shape

/-- What a line outside segments is read as, with the reasons. -/
inductive Reading (properties : List Text) (text : Text) : Shape → Prop
  | blank (empty : trim text = []) : Reading properties text .blank
  | comment (mark : (trim text).head? = some '#') : Reading properties text .comment
  | blockClose (code : IsCode (trim text))
      (closes : isBlockClose (splitComment (trim text)).1 = true) :
      Reading properties text .blockClose
  | segmentInline {key value : Text} (code : IsCode (trim text))
      (stays : isBlockClose (splitComment (trim text)).1 = false)
      (found : property? (trim text) = some (key, value)) (known : key ∈ properties)
      (ended : endsSegment value = true) :
      Reading properties text (.segmentInline key value)
  | segmentOpen {key value : Text} (code : IsCode (trim text))
      (stays : isBlockClose (splitComment (trim text)).1 = false)
      (found : property? (trim text) = some (key, value)) (known : key ∈ properties)
      (open_ : endsSegment value = false) :
      Reading properties text (.segmentOpen key value)
  | blockOpen {key name : Option Text} (code : IsCode (trim text))
      (stays : isBlockClose (splitComment (trim text)).1 = false)
      (free : ∀ key value, property? (trim text) = some (key, value) → key ∉ properties)
      (brace : ['{'].isSuffixOf (splitComment (trim text)).1 = true)
      (opened : ofBlockOpener (splitComment (trim text)).1 = .blockOpen key name) :
      Reading properties text (.blockOpen key name)
  | inlineBlock {key name body : Text} (code : IsCode (trim text))
      (stays : isBlockClose (splitComment (trim text)).1 = false)
      (free : ∀ key value, property? (trim text) = some (key, value) → key ∉ properties)
      (noBrace : ['{'].isSuffixOf (splitComment (trim text)).1 = false)
      (found : inlineBlock? (splitComment (trim text)).1 = some (key, name, body)) :
      Reading properties text (.inlineBlock key name body)
  | property {key value : Text} (code : IsCode (trim text))
      (stays : isBlockClose (splitComment (trim text)).1 = false)
      (found : property? (trim text) = some (key, value)) (unknown : key ∉ properties)
      (noBrace : ['{'].isSuffixOf (splitComment (trim text)).1 = false)
      (noBlock : inlineBlock? (splitComment (trim text)).1 = none) :
      Reading properties text (.property key value)
  | content (code : IsCode (trim text))
      (stays : isBlockClose (splitComment (trim text)).1 = false)
      (absent : property? (trim text) = none)
      (noBrace : ['{'].isSuffixOf (splitComment (trim text)).1 = false)
      (noBlock : inlineBlock? (splitComment (trim text)).1 = none) :
      Reading properties text .content

variable {properties : List Text} {text : Text} {shape : Shape}

theorem isCode_of_tests (solid : ¬ (trim text).isEmpty = true)
    (mark : ¬ ['#'].isPrefixOf (trim text) = true) : IsCode (trim text) := by
  cases stripped : trim text with
  | nil => simp [stripped] at solid
  | cons c rest =>
    refine ⟨c, rfl, ?_⟩
    rintro rfl
    simp [stripped] at mark

theorem tests_of_isCode (code : IsCode (trim text)) :
    (trim text).isEmpty = false ∧ ['#'].isPrefixOf (trim text) = false := by
  obtain ⟨c, head, other⟩ := code
  obtain ⟨rest, same⟩ := List.head?_eq_some_iff.mp head
  rw [same]
  exact ⟨rfl, by simpa [List.isPrefixOf] using other.symm⟩

theorem ofBlock?_of_brace {code : Text} (brace : ['{'].isSuffixOf code = true) :
    ofBlock? code = some (ofBlockOpener code) := by
  rw [ofBlock?, if_pos brace]

theorem ofBlock?_of_noBrace {code : Text} (noBrace : ['{'].isSuffixOf code = false) :
    ofBlock? code =
      (inlineBlock? code).map fun (key, name, body) => .inlineBlock key name body := by
  rw [ofBlock?, noBrace]
  rfl

theorem ofBlockOpener_eq (code : Text) : ∃ key name, ofBlockOpener code = .blockOpen key name := by
  unfold ofBlockOpener
  split
  · exact ⟨_, _, rfl⟩
  · exact ⟨_, _, rfl⟩

theorem reading_read (properties : List Text) (text : Text) :
    Reading properties text (read properties text) := by
  unfold read
  dsimp only
  split
  next empty => exact .blank (List.isEmpty_iff.mp empty)
  next solid =>
    split
    next mark =>
      refine .comment ?_
      obtain ⟨rest, same⟩ := List.isPrefixOf_iff_prefix.mp mark
      rw [← same]
      rfl
    next mark =>
      have code := isCode_of_tests solid mark
      split
      next closes => exact .blockClose code closes
      next stays =>
        have stays := Bool.eq_false_iff.mpr stays
        have block (default : Shape)
            (free : ∀ key value, property? (trim text) = some (key, value) → key ∉ properties)
            (rest : ['{'].isSuffixOf (splitComment (trim text)).1 = false →
              inlineBlock? (splitComment (trim text)).1 = none →
              Reading properties text default) :
            Reading properties text ((ofBlock? (splitComment (trim text)).1).getD default) := by
          cases brace : ['{'].isSuffixOf (splitComment (trim text)).1 with
          | true =>
            obtain ⟨key, name, opened⟩ := ofBlockOpener_eq (splitComment (trim text)).1
            rw [ofBlock?_of_brace brace, opened]
            exact .blockOpen code stays free brace opened
          | false =>
            rw [ofBlock?_of_noBrace brace]
            cases found : inlineBlock? (splitComment (trim text)).1 with
            | none => exact rest brace found
            | some block => exact .inlineBlock code stays free brace found
        split
        next key value found =>
          split
          next known =>
            have known : key ∈ properties := by simpa using known
            unfold ofSegment
            split
            next ended => exact .segmentInline code stays found known ended
            next open_ => exact .segmentOpen code stays found known (Bool.eq_false_iff.mpr open_)
          next unknown =>
            have unknown : key ∉ properties := by simpa using unknown
            refine block _ ?_ (.property code stays found unknown)
            intro other _ again
            rw [found] at again
            cases again
            exact unknown
        next absent =>
          refine block _ ?_ (.content code stays absent)
          intro key value found
          rw [absent] at found
          cases found

/-- The tests that hold of a line decide what it is. -/
theorem Reading.read_eq (reading : Reading properties text shape) :
    read properties text = shape := by
  unfold read
  cases reading with
  | blank empty => simp [empty]
  | comment mark =>
    obtain ⟨rest, same⟩ := List.head?_eq_some_iff.mp mark
    simp [same]
  | blockClose code closes => simp [tests_of_isCode code, closes]
  | segmentInline code stays found known ended =>
    simp [tests_of_isCode code, stays, found, known, ofSegment, ended]
  | segmentOpen code stays found known open_ =>
    simp [tests_of_isCode code, stays, found, known, ofSegment, open_]
  | blockOpen code stays free brace opened =>
    cases found : property? (trim text) with
    | none => simp [tests_of_isCode code, stays, found, ofBlock?_of_brace brace, opened]
    | some property =>
      have unknown := free property.1 property.2 found
      simp [tests_of_isCode code, stays, found, unknown, ofBlock?_of_brace brace, opened]
  | inlineBlock code stays free noBrace inlined =>
    cases found : property? (trim text) with
    | none => simp [tests_of_isCode code, stays, found, ofBlock?_of_noBrace noBrace, inlined]
    | some property =>
      have unknown := free property.1 property.2 found
      simp [tests_of_isCode code, stays, found, unknown, ofBlock?_of_noBrace noBrace, inlined]
  | property code stays found unknown noBrace noBlock =>
    simp [tests_of_isCode code, stays, found, unknown, ofBlock?_of_noBrace noBrace, noBlock]
  | content code stays absent noBrace noBlock =>
    simp [tests_of_isCode code, stays, absent, ofBlock?_of_noBrace noBrace, noBlock]

theorem read_eq_iff : read properties text = shape ↔ Reading properties text shape :=
  ⟨fun same => same ▸ reading_read properties text, Reading.read_eq⟩

theorem Reading.solid (reading : Reading properties text shape) (other : shape ≠ .blank) :
    allBlank text = false := by
  apply Bool.eq_false_iff.mpr
  intro empty
  have stripped := trim_eq_nil_iff.mpr empty
  have noCode : ¬ IsCode (trim text) := by
    intro code
    obtain ⟨c, head, -⟩ := code
    rw [stripped] at head
    cases head
  cases reading with
  | blank => exact other rfl
  | comment mark =>
    rw [stripped] at mark
    cases mark
  | blockClose code | segmentInline code | segmentOpen code | blockOpen code
  | inlineBlock code | property code | content code => exact noCode code

end Shape

variable {properties : List Text}

theorem Line.ReadAt.reading {depth : Nat} {line : Line}
    (read : line.ReadAt properties (.outside depth)) :
    Shape.Reading properties line.text line.shape := by
  rw [read.shape_of_outside rfl]
  exact Shape.reading_read properties line.text

theorem Line.ReadAt.endsSegment_of_close {level : Level} {line : Line}
    (read : line.ReadAt properties level) (close : line.shape = .segmentClose) :
    endsSegment (trim line.text) = true := by
  obtain ⟨property, inside⟩ := read.inside_of_shape (.inr close)
  have shape := read.shape
  simp only [Level.shape, inside, Shape.readInSegment] at shape
  split at shape
  · assumption
  · rw [close] at shape
    cases shape

/-- A segment begins with one of the properties that open them. -/
theorem Line.ReadAt.property_of_segment {depth : Nat} {line : Line} {key value : Text}
    (read : line.ReadAt properties (.outside depth))
    (shape : line.shape = .segmentOpen key value ∨ line.shape = .segmentInline key value) :
    property? (trim line.text) = some (key, value) ∧ key ∈ properties := by
  have reading := read.reading
  rcases shape with shape | shape
  · rw [shape] at reading
    cases reading with
    | segmentOpen _ _ found known => exact ⟨found, known⟩
  · rw [shape] at reading
    cases reading with
    | segmentInline _ _ found known => exact ⟨found, known⟩

end LookML
