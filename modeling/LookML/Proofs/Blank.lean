import LookML.Text.Blank
import LookML.Text.Word
import Mathlib.Data.List.DropRight

/-!
# Blanks around and inside a text

Trimming a text takes blanks off its ends, and a text is trimmed when there are none to
take.  Squashing deletes all of its blanks; what only moves blanks around does not change
the squashed text.
-/

namespace LookML.Text

open List

variable {c : Char} {text lead : Text}

/-- What is said of the characters of a text is decided by going through the text, and not
through all characters. -/
instance decidableForallMem (text : Text) (p : Char → Prop) [DecidablePred p] :
    Decidable (∀ c ∈ text, p c) :=
  List.decidableBAll p text

instance decidableExistsMem (text : Text) (p : Char → Prop) [DecidablePred p] :
    Decidable (∃ c ∈ text, p c) :=
  List.decidableBEx p text

instance decidableForallSome (c : Option Char) (p : Char → Prop) [DecidablePred p] :
    Decidable (∀ d ∈ c, p d) :=
  Option.decidableForallMem c

theorem takeWhile_append_of_head {p : Char → Bool} {run rest : Text} (all : ∀ c ∈ run, p c = true)
    (ends : ∀ c ∈ rest.head?, p c = false) : (run ++ rest).takeWhile p = run := by
  rw [takeWhile_append_of_pos all]
  cases rest with
  | nil => simp
  | cons c rest => simp [ends c rfl]

theorem dropWhile_append_of_head {p : Char → Bool} {run rest : Text} (all : ∀ c ∈ run, p c = true)
    (ends : ∀ c ∈ rest.head?, p c = false) : (run ++ rest).dropWhile p = rest := by
  rw [dropWhile_append_of_pos all]
  cases rest with
  | nil => rfl
  | cons c rest => simp [ends c rfl]

theorem head_dropWhile (p : Char → Bool) (text : Text) :
    ∀ c ∈ (text.dropWhile p).head?, p c = false := by
  intro c head
  have stops := head?_dropWhile_not p text
  rw [Option.mem_def.mp head] at stops
  simpa using stops

/-- The blanks, one by one. -/
def blanks : List Char :=
  ([0x09, 0x0A, 0x0B, 0x0C, 0x0D, 0x1C, 0x1D, 0x1E, 0x1F, 0x20, 0x85, 0xA0, 0x1680,
    0x2000, 0x2001, 0x2002, 0x2003, 0x2004, 0x2005, 0x2006, 0x2007, 0x2008, 0x2009, 0x200A,
    0x2028, 0x2029, 0x202F, 0x205F, 0x3000] : List Nat).map Char.ofNat

theorem mem_blanks (blank : isBlank c = true) : c ∈ blanks := by
  refine mem_map.mpr ⟨c.toNat, ?_, c.ofNat_toNat⟩
  simp only [isBlank, Bool.or_eq_true, Bool.and_eq_true, decide_eq_true_eq, beq_iff_eq] at blank
  simp only [mem_cons, not_mem_nil, or_false]
  omega

theorem isWord_of_isBlank (blank : isBlank c = true) : isWord c = false := by
  have each : ∀ c ∈ blanks, isWord c = false := by decide +kernel
  exact each c (mem_blanks blank)

@[simp] theorem isBlank_space : isBlank ' ' = true := rfl

@[simp] theorem allBlank_nil : allBlank [] = true := rfl

@[simp] theorem allBlank_append (first second : Text) :
    allBlank (first ++ second) = (allBlank first && allBlank second) := by
  simp [allBlank]

@[simp] theorem allBlank_cons (c : Char) (text : Text) :
    allBlank (c :: text) = (isBlank c && allBlank text) := by
  simp [allBlank]

theorem allBlank_iff : allBlank text = true ↔ ∀ c ∈ text, isBlank c = true := by
  simp [allBlank]

theorem allBlank_reverse (blank : allBlank text = true) : allBlank text.reverse = true := by
  simpa [allBlank] using blank

theorem trimRight_eq (text : Text) : trimRight text = (trimLeft text.reverse).reverse :=
  rfl

theorem trimLeft_append_of_allBlank (blank : allBlank lead = true) (text : Text) :
    trimLeft (lead ++ text) = trimLeft text :=
  dropWhile_append_of_pos (allBlank_iff.mp blank)

theorem trimRight_append_of_allBlank {tail : Text} (blank : allBlank tail = true)
    (text : Text) : trimRight (text ++ tail) = trimRight text := by
  rw [trimRight_eq, trimRight_eq, reverse_append,
    trimLeft_append_of_allBlank (allBlank_reverse blank)]

theorem getLast?_cons_or (c : Char) (lead : Text) (previous : Option Char) :
    (c :: lead).getLast?.or previous = lead.getLast?.or (some c) := by
  rw [getLast?_cons]
  cases lead.getLast? <;> rfl

theorem trimLeft_eq_nil_iff : trimLeft text = [] ↔ allBlank text = true := by
  rw [allBlank_iff]
  exact dropWhile_eq_nil_iff

theorem trimRight_eq_nil_iff : trimRight text = [] ↔ allBlank text = true := by
  rw [allBlank_iff]
  exact rdropWhile_eq_nil_iff

theorem exists_trimLeft (text : Text) :
    ∃ lead, allBlank lead = true ∧ text = lead ++ trimLeft text := by
  refine ⟨text.takeWhile isBlank, ?_, takeWhile_append_dropWhile.symm⟩
  exact allBlank_iff.mpr fun c member => mem_takeWhile_imp member

theorem exists_trimRight (text : Text) :
    ∃ tail, allBlank tail = true ∧ text = trimRight text ++ tail := by
  obtain ⟨lead, blank, whole⟩ := exists_trimLeft text.reverse
  refine ⟨lead.reverse, allBlank_reverse blank, ?_⟩
  have reversed := congrArg List.reverse whole
  rwa [reverse_reverse, reverse_append] at reversed

theorem head_trimLeft (text : Text) : ∀ c ∈ (trimLeft text).head?, isBlank c = false := by
  intro c member
  have solid := head?_dropWhile_not isBlank text
  rw [show (text.dropWhile isBlank).head? = some c from member] at solid
  exact solid

theorem trimLeft_of_head (solid : ∀ c ∈ text.head?, isBlank c = false) : trimLeft text = text := by
  cases text with
  | nil => rfl
  | cons c text => simp [trimLeft, solid c rfl]

/-- What a blank in front does not change, trimming does not change. -/
theorem apply_trimLeft {α : Type} {f : Text → α}
    (step : ∀ c text, isBlank c = true → f (c :: text) = f text) (text : Text) :
    f (trimLeft text) = f text := by
  induction text with
  | nil => rfl
  | cons c text ih =>
    cases blank : isBlank c with
    | false => rw [trimLeft_of_head (by simp [blank])]
    | true =>
      have dropped : trimLeft (c :: text) = trimLeft text :=
        trimLeft_append_of_allBlank (show allBlank [c] = true by simp [blank]) text
      rw [dropped, ih, step c text blank]

theorem head_append {p : Char → Prop} {rest : Text} (first : ∀ c ∈ lead.head?, p c)
    (second : ∀ c ∈ rest.head?, p c) : ∀ c ∈ (lead ++ rest).head?, p c := by
  cases lead with
  | nil => exact second
  | cons => exact first

theorem last_append {p : Char → Prop} {rest : Text} (first : ∀ c ∈ lead.getLast?, p c)
    (second : ∀ c ∈ rest.getLast?, p c) : ∀ c ∈ (lead ++ rest).getLast?, p c := by
  intro c last
  rw [getLast?_append, Option.mem_def, Option.or_eq_some_iff] at last
  exact last.elim (second c) fun last => first c last.2

/-- Blanks hold no other character. -/
theorem not_mem_of_allBlank (blank : allBlank text = true) (solid : isBlank c = false) :
    c ∉ text := by
  intro member
  rw [allBlank_iff.mp blank c member] at solid
  cases solid

theorem head?_append_ne (blank : allBlank lead = true) (solid : isBlank c = false)
    (other : text.head? ≠ some c) : (lead ++ text).head? ≠ some c := by
  refine fun head => head_append (p := (· ≠ c)) ?_ ?_ c head rfl
  · rintro d first rfl
    exact not_mem_of_allBlank blank solid (mem_of_mem_head? first)
  · rintro d first rfl
    exact other first

/-- A text that does not end with a character does not do so with blanks behind it. -/
theorem getLast?_append_ne {space : Text} (blank : allBlank space = true)
    (solid : isBlank c = false) (other : lead.getLast? ≠ some c) :
    (lead ++ space).getLast? ≠ some c := by
  refine fun last => last_append (p := (· ≠ c)) ?_ ?_ c last rfl
  · rintro d final rfl
    exact other final
  · rintro d final rfl
    exact not_mem_of_allBlank blank solid (mem_of_getLast? final)

theorem solid_head (head : text.head? = some c) (solid : isBlank c = false) :
    ∀ d ∈ text.head?, isBlank d = false := by
  intro d first
  cases head.symm.trans first
  exact solid

theorem solid_last (last : text.getLast? = some c) (solid : isBlank c = false) :
    ∀ d ∈ text.getLast?, isBlank d = false := by
  intro d final
  cases last.symm.trans final
  exact solid

/-- No blanks stand before a text that begins with none. -/
theorem eq_nil_of_solid (blank : allBlank lead = true)
    (solid : ∀ c ∈ (lead ++ text).head?, isBlank c = false) : lead = [] := by
  cases lead with
  | nil => rfl
  | cons b lead => exact absurd mem_cons_self (not_mem_of_allBlank blank (solid b rfl))

theorem eq_nil_of_solid_last {tail : Text} (blank : allBlank tail = true)
    (solid : ∀ c ∈ (lead ++ tail).getLast?, isBlank c = false) : tail = [] := by
  rcases eq_nil_or_concat tail with rfl | ⟨front, c, rfl⟩
  · rfl
  · exact absurd (by simp) (not_mem_of_allBlank blank (solid c (by simp)))

theorem trimLeft_trimLeft (text : Text) : trimLeft (trimLeft text) = trimLeft text :=
  trimLeft_of_head (head_trimLeft text)

theorem trim_trimLeft (text : Text) : trim (trimLeft text) = trim text := by
  rw [trim, trimLeft_trimLeft, ← trim]

theorem trimLeft_append_of_solid (solid : isBlank c = false) (lead rest : Text) :
    trimLeft (lead ++ c :: rest) = trimLeft lead ++ c :: rest := by
  obtain ⟨gap, blank, whole⟩ := exists_trimLeft lead
  conv_lhs => rw [whole, append_assoc, trimLeft_append_of_allBlank blank]
  exact trimLeft_of_head (head_append (head_trimLeft lead) (solid_head rfl solid))

theorem last_trimRight (text : Text) : ∀ c ∈ (trimRight text).getLast?, isBlank c = false := by
  intro c member
  rw [trimRight_eq, getLast?_reverse] at member
  exact head_trimLeft text.reverse c member

theorem trimRight_of_last (solid : ∀ c ∈ text.getLast?, isBlank c = false) :
    trimRight text = text := by
  rw [trimRight_eq, trimLeft_of_head, reverse_reverse]
  intro c member
  rw [head?_reverse] at member
  exact solid c member

theorem trimRight_append_of_last (solid : ∀ c ∈ lead.getLast?, isBlank c = false)
    (rest : Text) : trimRight (lead ++ rest) = lead ++ trimRight rest := by
  obtain ⟨tail, blank, whole⟩ := exists_trimRight rest
  conv_lhs => rw [whole, ← append_assoc, trimRight_append_of_allBlank blank]
  exact trimRight_of_last (last_append solid (last_trimRight rest))

/-- A text that neither begins nor ends with a blank. -/
structure Trimmed (text : Text) : Prop where
  head : ∀ c ∈ text.head?, isBlank c = false
  last : ∀ c ∈ text.getLast?, isBlank c = false

theorem Trimmed.trim_eq (trimmed : Trimmed text) : trim text = text := by
  rw [trim, trimLeft_of_head trimmed.head, trimRight_of_last trimmed.last]

theorem Trimmed.trim_append {tail : Text} (trimmed : Trimmed text)
    (leadBlank : allBlank lead = true) (tailBlank : allBlank tail = true) :
    trim (lead ++ text ++ tail) = text := by
  rw [trim, append_assoc, trimLeft_append_of_allBlank leadBlank]
  cases text with
  | nil =>
    rw [nil_append, trimLeft_eq_nil_iff.mpr tailBlank]
    rfl
  | cons c text =>
    rw [trimLeft_of_head (by simpa using trimmed.head),
      trimRight_append_of_allBlank tailBlank, trimRight_of_last trimmed.last]

theorem trimmed_trim (text : Text) : Trimmed (trim text) := by
  refine ⟨?_, last_trimRight _⟩
  obtain ⟨tail, -, whole⟩ := exists_trimRight (trimLeft text)
  have head := head_trimLeft text
  intro c member
  refine head c ?_
  rw [whole]
  exact mem_head?_append_of_mem_head? member

theorem exists_trim (text : Text) :
    ∃ lead tail, allBlank lead = true ∧ allBlank tail = true ∧
      text = lead ++ trim text ++ tail := by
  obtain ⟨lead, leadBlank, left⟩ := exists_trimLeft text
  obtain ⟨tail, tailBlank, right⟩ := exists_trimRight (trimLeft text)
  refine ⟨lead, tail, leadBlank, tailBlank, ?_⟩
  rw [append_assoc, trim, ← right, ← left]

theorem mem_of_mem_trim (member : c ∈ trim text) : c ∈ text := by
  obtain ⟨lead, tail, -, -, whole⟩ := exists_trim text
  rw [whole]
  simp [member]

@[simp] theorem trim_trim (text : Text) : trim (trim text) = trim text :=
  (trimmed_trim text).trim_eq

theorem trim_append_of_allBlank (blank : allBlank lead = true) (text : Text) :
    trim (lead ++ text) = trim text := by
  rw [trim, trim, trimLeft_append_of_allBlank blank]

@[simp] theorem trim_trimRight (text : Text) : trim (trimRight text) = trim text := by
  obtain ⟨rest, restBlank, right⟩ := exists_trimRight text
  obtain ⟨front, back, frontBlank, backBlank, inner⟩ := exists_trim (trimRight text)
  have same : trim text = trim (trimRight text) := by
    conv_lhs => rw [right, inner, append_assoc, append_assoc, ← append_assoc]
    exact (trimmed_trim _).trim_append frontBlank (by simp [backBlank, restBlank])
  exact same.symm

theorem trimRight_append_congr (lead : Text) {other : Text}
    (same : trimRight text = trimRight other) :
    trimRight (lead ++ text) = trimRight (lead ++ other) := by
  obtain ⟨tail, blank, whole⟩ := exists_trimRight text
  obtain ⟨rest, blankRest, wholeOther⟩ := exists_trimRight other
  rw [whole, wholeOther, same, ← append_assoc, ← append_assoc,
    trimRight_append_of_allBlank blank, trimRight_append_of_allBlank blankRest]

theorem trim_eq_nil_iff : trim text = [] ↔ allBlank text = true := by
  constructor
  · intro empty
    obtain ⟨lead, tail, leadBlank, tailBlank, whole⟩ := exists_trim text
    rw [whole, empty]
    simp [leadBlank, tailBlank]
  · intro blank
    rw [trim, trimLeft_eq_nil_iff.mpr blank]
    rfl

/-- The text without any of its blanks. -/
def squash (text : Text) : Text :=
  text.filter fun c => !isBlank c

@[simp] theorem squash_nil : squash [] = [] := rfl

@[simp] theorem squash_append (first second : Text) :
    squash (first ++ second) = squash first ++ squash second :=
  filter_append ..

theorem squash_cons (c : Char) (text : Text) :
    squash (c :: text) = if isBlank c then squash text else c :: squash text := by
  cases blank : isBlank c <;> simp [squash, blank]

theorem squash_eq_nil_iff : squash text = [] ↔ allBlank text = true := by
  simp [squash, allBlank]

theorem squash_of_allBlank (blank : allBlank text = true) : squash text = [] :=
  squash_eq_nil_iff.mpr blank

@[simp] theorem squash_trimLeft (text : Text) : squash (trimLeft text) = squash text := by
  obtain ⟨lead, blank, whole⟩ := exists_trimLeft text
  conv_rhs => rw [whole, squash_append, squash_of_allBlank blank, nil_append]

@[simp] theorem squash_trimRight (text : Text) : squash (trimRight text) = squash text := by
  obtain ⟨tail, blank, whole⟩ := exists_trimRight text
  conv_rhs => rw [whole, squash_append, squash_of_allBlank blank, append_nil]

@[simp] theorem squash_trim (text : Text) : squash (trim text) = squash text := by
  simp [trim]

end LookML.Text
