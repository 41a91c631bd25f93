import LookML.Proofs.Fidelity

/-!
# Formatting what was formatted

A text that was formatted stays as it is when it is formatted again.  An intact text is
built into the same parts and laid out the same way; a broken one is read line by line as
what it was.  Besides the lines that are read as something else once they are laid out,
one kind of declaration is excepted: a comment at its end that is followed by nothing but
blank lines loses these, and is then read as a comment before the closing brace.
-/

namespace LookML

open Text Code

section Conservative

variable {settings : FormatSettings} {level final final' : Level} {line again : Line}
  {lines lines' : List Line}

/-- A line that is read as what it is once it has been indented and spaced by itself. -/
structure Line.Steadfast (settings : FormatSettings) (level : Level) (line : Line) : Prop where
  read : line.ReadAt settings.segmentProperties level
  unbroken : Unbroken line.text
  stays : ¬ line.shape.Reopens

/-- A line and the line it is read as once it has been indented and spaced by itself. -/
structure Line.Repeats (settings : FormatSettings) (line again : Line) : Prop where
  depth : again.depth = line.depth
  shape : again.shape = line.shape.tidied
  stays : settings.conservativeLine again = again.text

theorem FormatSettings.conservativeLine_of_raw (settings : FormatSettings)
    (raw : line.shape = .segmentContent ∨ line.shape = .segmentClose ∨ line.shape = .content) :
    settings.conservativeLine line = line.text := by
  rcases raw with shape | shape | shape <;> rw [conservativeLine, shape]

theorem FormatSettings.entry_eq_conservativeLine (settings : FormatSettings) {depth : Nat}
    (read : line.ReadAt settings.segmentProperties (.outside depth))
    (other : line.shape ≠ .content) :
    settings.entry false (.single line) = [settings.conservativeLine line] := by
  have plain := Shape.read_ne_segment settings.segmentProperties line.text
  rw [← read.shape_of_outside rfl] at plain
  unfold entry conservativeLine
  dsimp only
  cases shape : line.shape with
  | content => exact absurd shape other
  | segmentContent => exact absurd shape plain.1
  | segmentClose => exact absurd shape plain.2
  | _ => rfl

theorem Line.Steadfast.repeats_raw (steadfast : line.Steadfast settings level)
    (read : again.ReadAt settings.segmentProperties level)
    (written : again.text = settings.conservativeLine line)
    (raw : line.shape = .segmentContent ∨ line.shape = .segmentClose ∨ line.shape = .content) :
    line.Repeats settings again := by
  rw [settings.conservativeLine_of_raw raw] at written
  have shape : again.shape = line.shape := by
    rw [read.shape, steadfast.read.shape, written]
  refine ⟨read.depth.trans steadfast.read.depth.symm, ?_,
    settings.conservativeLine_of_raw (by rwa [shape])⟩
  rw [shape]
  rcases raw with same | same | same <;> rw [same] <;> rfl

theorem Line.Steadfast.repeats (steadfast : line.Steadfast settings level)
    (read : again.ReadAt settings.segmentProperties level)
    (written : again.text = settings.conservativeLine line) : line.Repeats settings again := by
  by_cases raw : line.shape = .segmentContent ∨ line.shape = .segmentClose ∨ line.shape = .content
  · exact steadfast.repeats_raw read written raw
  · have outside :=
      steadfast.read.eq_outside (fun shape => raw (.inl shape)) fun shape => raw (.inr (.inl shape))
    rw [outside] at read
    have readLine := steadfast.read
    rw [outside] at readLine
    have stable : line.Stable settings (.outside line.depth) :=
      ⟨readLine, steadfast.unbroken, steadfast.stays, fun shape => absurd (.inr (.inl shape)) raw⟩
    have entry := settings.entry_eq_conservativeLine readLine fun shape => raw (.inr (.inr shape))
    rw [← written] at entry
    obtain ⟨echo, stays⟩ := reread_single false stable read entry
    have other : again.shape ≠ .content := by
      rw [echo.shape]
      intro content
      cases shape : line.shape <;> rw [shape] at content <;> cases content
      exact raw (.inr (.inr shape))
    rw [settings.entry_eq_conservativeLine read other] at stays
    exact ⟨echo.depth, echo.shape, (List.cons.inj stays).1⟩

/-- Lines indented and spaced one by one, and read. -/
theorem Run.repeats (run : Run (Line.Steadfast settings) level lines final)
    (run' : settings.Reads level lines' final')
    (written : lines'.map Line.text = lines.map settings.conservativeLine) :
    final' = final ∧ List.Forall₂ (Line.Repeats settings) lines lines' := by
  induction run generalizing lines' with
  | nil =>
    cases List.map_eq_nil_iff.mp written
    cases run'
    exact ⟨rfl, .nil⟩
  | cons steadfast _ ih =>
    obtain ⟨again, later, rfl, text, texts⟩ := List.map_eq_cons_iff.mp written
    cases run' with
    | cons read behind =>
      have here := steadfast.repeats read text
      rw [here.shape, Level.next_tidied] at behind
      obtain ⟨ended, rest⟩ := ih behind texts
      exact ⟨ended, .cons here rest⟩

theorem Line.Repeats.stays_all (repeats : List.Forall₂ (Line.Repeats settings) lines lines') :
    lines'.map settings.conservativeLine = lines'.map text := by
  induction repeats with
  | nil => rfl
  | cons here _ ih => rw [List.map_cons, List.map_cons, here.stays, ih]

/-- Closing braces where nothing is open stay what they are. -/
theorem Line.Repeats.closes (repeats : List.Forall₂ (Line.Repeats settings) lines lines')
    (matched : ∀ line ∈ lines', ¬ (line.shape = .blockClose ∧ line.depth = 0)) :
    ∀ line ∈ lines, ¬ (line.shape = .blockClose ∧ line.depth = 0) := by
  induction repeats with
  | nil => intro line member; cases member
  | @cons line again _ _ here _ ih =>
    obtain ⟨first, rest⟩ := List.forall_mem_cons.mp matched
    refine List.forall_mem_cons.mpr ⟨?_, ih rest⟩
    rwa [here.shape, here.depth, Shape.tidied_eq_blockClose] at first

theorem Line.Steadfast.unbroken_conservativeLine (steadfast : line.Steadfast settings level) :
    Unbroken (settings.conservativeLine line) := by
  by_cases raw : line.shape = .segmentContent ∨ line.shape = .segmentClose ∨ line.shape = .content
  · rw [settings.conservativeLine_of_raw raw]
    exact steadfast.unbroken
  · have outside :=
      steadfast.read.eq_outside (fun shape => raw (.inl shape)) fun shape => raw (.inr (.inl shape))
    have read := steadfast.read
    rw [outside] at read
    have entry := settings.entry_eq_conservativeLine read fun shape => raw (.inr (.inr shape))
    apply FormatSettings.unbroken_single false read steadfast.unbroken
    rw [entry]
    exact List.mem_cons_self

end Conservative

section Twice

variable {settings : FormatSettings} {text : Text}

theorem FormatSettings.formatText_of_broken
    (broken : (Document.ofText settings.segmentProperties text).nestingBroken = true) :
    settings.formatText text = settings.formatConservative text := by
  unfold formatText
  split
  next empty =>
    rw [List.isEmpty_iff.mp empty]
    rfl
  next =>
    dsimp only
    rw [if_pos broken]

variable (plain : '\r' ∉ text) (stays : (Lexed.ofText settings.segmentProperties text).Stays)
include plain stays

theorem Lexed.run_steadfast : Run (Line.Steadfast settings) (.outside 0)
    (ofText settings.segmentProperties text).lines
    ((ofText settings.segmentProperties text).lines.foldl Nesting.advance {}).level := by
  have texts := unbroken_ofText settings.segmentProperties plain
  refine (((run_ofText settings.segmentProperties text).with_mem texts).with_mem stays).mono ?_
  intro level line known
  exact ⟨known.1.1, known.1.2, known.2⟩

/-- A broken text that was formatted stays as it is. -/
theorem FormatSettings.formatText_conservative
    (broken : (Document.ofText settings.segmentProperties text).nestingBroken = true) :
    settings.formatText (settings.formatConservative text) = settings.formatConservative text := by
  have run := Lexed.run_steadfast plain stays
  have unbroken :
      ∀ line ∈ (Lexed.ofText settings.segmentProperties text).lines.map settings.conservativeLine,
      Unbroken line := by
    intro written member
    obtain ⟨line, known, rfl⟩ := List.mem_map.mp member
    obtain ⟨level, steadfast⟩ := run.exists_of_mem known
    exact steadfast.unbroken_conservativeLine
  unfold formatConservative
  generalize same :
      (Lexed.ofText settings.segmentProperties text).lines.map settings.conservativeLine = texts
    at unbroken
  by_cases blank : texts = [[]]
  · rw [blank]
    rfl
  have lines := lines_joinLines unbroken blank
  obtain ⟨ended, repeats⟩ := run.repeats (Lexed.run_ofLines settings.segmentProperties texts)
    ((Nesting.text_classify settings.segmentProperties {} 0 texts).trans same.symm)
  have stillBroken :
      (Document.ofText settings.segmentProperties (joinLines texts)).nestingBroken = true := by
    by_contra intact
    have intact := Bool.eq_false_iff.mpr intact
    rw [Document.ofText, Lexed.ofText_eq, lines, Document.intact_iff, ended] at intact
    have before : (Document.ofText settings.segmentProperties text).nestingBroken = false :=
      (Document.intact_iff _ _).mpr ⟨Line.Repeats.closes repeats intact.1, intact.2⟩
    rw [broken] at before
    cases before
  rw [formatText_of_broken stillBroken, formatConservative, Lexed.ofText_eq, lines,
    Line.Repeats.stays_all repeats]
  exact congrArg joinLines (Nesting.text_classify settings.segmentProperties {} 0 texts)

/-- An intact text that was formatted stays as it is. -/
theorem FormatSettings.formatText_layout
    (intact : (Document.ofText settings.segmentProperties text).nestingBroken = false)
    (once : (Lexed.ofText settings.segmentProperties text).ClosesOnce)
    (settled : ∀ declaration ∈ (Document.ofText settings.segmentProperties text).declarations,
      ¬ declaration.Dangles) :
    settings.formatText (joinLines (settings.document (.ofText settings.segmentProperties text))) =
      joinLines (settings.document (.ofText settings.segmentProperties text)) := by
  have steady : (Lexed.ofText settings.segmentProperties text).Steady := ⟨stays, once⟩
  have unbroken := Document.unbroken_layout plain intact steady
  generalize written : settings.document (.ofText settings.segmentProperties text) = texts
    at unbroken
  by_cases blank : texts = [[]]
  · rw [blank]
    rfl
  have lines := lines_joinLines unbroken blank
  have stillIntact := (Document.alike_layout plain intact steady written.symm).intact
  obtain ⟨ended, rebuilt⟩ := Document.rebuilt_layout plain intact steady written.symm
  have run := Lexed.run_ofLines settings.segmentProperties texts
  rw [ended] at run
  have again : Document.ofText settings.segmentProperties (joinLines texts) =
      .ofLexed (.ofLines settings.segmentProperties texts) := by
    rw [Document.ofText, Lexed.ofText_eq, lines]
  rw [← again] at stillIntact
  rw [formatText_of_intact stillIntact, again, document, Document.items_ofLexed run,
    settings.outline_settled, rebuilt.layout settled, ← written]
  rfl

/-- Formatting a text whose lines stay what they are is the same twice as once.  Where the text
is intact, its segments must close once and its declarations must be settled as well. -/
theorem FormatSettings.formatText_formatText
    (settled : (Document.ofText settings.segmentProperties text).nestingBroken = false →
      (Lexed.ofText settings.segmentProperties text).ClosesOnce ∧
      ∀ declaration ∈ (Document.ofText settings.segmentProperties text).declarations,
        ¬ declaration.Dangles) :
    settings.formatText (settings.formatText text) = settings.formatText text := by
  cases nesting : (Document.ofText settings.segmentProperties text).nestingBroken with
  | true =>
    rw [formatText_of_broken nesting]
    exact formatText_conservative plain stays nesting
  | false =>
    rw [formatText_of_intact nesting]
    exact formatText_layout plain stays nesting (settled nesting).1 (settled nesting).2

end Twice

theorem FormatSettings.formatText_formatText_unsortedView : '\r' ∉ unsortedView ∧
    (Lexed.ofText ({} : FormatSettings).segmentProperties unsortedView).Stays ∧
    (Lexed.ofText ({} : FormatSettings).segmentProperties unsortedView).ClosesOnce ∧
    (∀ declaration ∈
        (Document.ofText ({} : FormatSettings).segmentProperties unsortedView).declarations,
      ¬ declaration.Dangles) ∧
    ({} : FormatSettings).formatText (({} : FormatSettings).formatText unsortedView) =
      ({} : FormatSettings).formatText unsortedView := by
  have plain : '\r' ∉ unsortedView := by decide +kernel
  have stays : (Lexed.ofText ({} : FormatSettings).segmentProperties unsortedView).Stays := by
    decide +kernel
  have once : (Lexed.ofText ({} : FormatSettings).segmentProperties unsortedView).ClosesOnce := by
    decide +kernel
  have settled : ∀ declaration ∈
      (Document.ofText ({} : FormatSettings).segmentProperties unsortedView).declarations,
      ¬ declaration.Dangles := by
    decide +kernel
  exact ⟨plain, stays, once, settled, formatText_formatText plain stays fun _ => ⟨once, settled⟩⟩

/-- A comment at the end of a declaration moves when the blank line behind it is gone. -/
theorem FormatSettings.formatText_formatText_dangling :
    ({} : FormatSettings).formatText
      (({} : FormatSettings).formatText "view: v \x7b\n  # c\n\n\x7d".toList) ≠
      ({} : FormatSettings).formatText "view: v \x7b\n  # c\n\n\x7d".toList := by
  decide +kernel

end LookML
