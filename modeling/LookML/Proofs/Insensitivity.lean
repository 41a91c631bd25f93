import Mathlib.Order.Monotone.Basic
import LookML.Lint.Result
import LookML.Proofs.Quieting
import LookML.Proofs.Relining

/-!
# Linting does not depend on layout

Two texts whose lines say the same, blank lines and comments left aside, are linted alike: the
same rules are broken and the same anomalies found, in the same order and on corresponding
lines.  Both are compared with the lines they have in common, numbered by their places.
-/

namespace LookML

open Text Code List

variable {first second lines : List Line} {line : Line} {bound : Nat}

section Common

variable {rank : Nat}

/-- The line without its number and without the blanks around its text. -/
def Line.bare (line : Line) : Line :=
  { line with number := 0, text := line.stripped }

/-- The line without the blanks around its text. -/
def Line.strip (line : Line) : Line :=
  { line with text := line.stripped }

/-- What lines say, each numbered by its place among them. -/
def Line.ranked (lines : List Line) : List Line :=
  (lines.map bare).mapIdx fun rank line => { line with number := rank }

/-- The number of the line at a place; behind the last line numbers go on. -/
def Line.rowAt (lines : List Line) (rank : Nat) : Nat :=
  match lines[rank]? with
  | some line => line.number
  | none => (lines.getLast?.map number).getD 0 + rank

theorem Line.renumbers_strip : Line.Renumbers id strip where
  depth := fun _ => rfl
  frame := fun line => .refl line.shape
  shape := fun _ => rfl
  marker := fun line _ => by simp only [isMarker, strip, stripped, trim_trim]
  order := fun _ _ => Iff.rfl
  number := fun _ => rfl
  stripped := fun line => trim_trim line.text

theorem Line.renumbers_renumber {row : Nat → Nat} (mono : StrictMono row) :
    Line.Renumbers row (renumber row) where
  toRelabels := relabels_renumber fun _ _ => mono.lt_iff_lt
  shape := fun _ => rfl
  number := fun _ => rfl
  stripped := fun _ => rfl

theorem Level.shape_eq_of_trim {properties : List Text} {level : Level} {first second : Text}
    (same : trim first = trim second) :
    level.shape properties first = level.shape properties second := by
  simp only [shape, Shape.readInSegment, Shape.read, same]

/-- Lines that are read from the same level on say the same if their texts do. -/
theorem Run.bare_eq {properties : List Text} {level final other : Level}
    (run : Run (Line.ReadAt properties) level first final)
    (again : Run (Line.ReadAt properties) level second other)
    (same : first.map Line.stripped = second.map Line.stripped) :
    first.map Line.bare = second.map Line.bare := by
  -- Both runs go on at the same level, since a line is read by its stripped text alone.
  induction run generalizing second with
  | nil level =>
    rw [map_nil] at same
    rw [map_eq_nil_iff.mp same.symm]
  | @cons level final line lines read _ ih =>
    cases again with
    | nil => simp at same
    | @cons _ _ line' lines' read' rest' =>
      rw [map_cons, map_cons, List.cons.injEq] at same
      have shape : line'.shape = line.shape := by
        rw [read.shape, read'.shape]
        exact Level.shape_eq_of_trim same.1.symm
      have head : line.bare = line'.bare := by
        rw [Line.bare, Line.bare, same.1, shape, read.depth, read'.depth]
      rw [shape] at rest'
      rw [map_cons, map_cons, head, ih rest' same.2]

theorem Line.length_ranked (lines : List Line) : (ranked lines).length = lines.length := by
  simp [ranked]

theorem Line.number_lt_of_mem_ranked (member : line ∈ ranked lines) :
    line.number < lines.length := by
  obtain ⟨rank, bound, rfl⟩ := mem_iff_getElem.mp member
  rw [length_ranked] at bound
  simpa [ranked] using bound

theorem Line.rowAt_of_lt (bound : rank < lines.length) :
    rowAt lines rank = lines[rank].number := by
  rw [rowAt, getElem?_eq_getElem bound]

theorem Line.rowAt_of_le (behind : lines.length ≤ rank) :
    rowAt lines rank = (lines.getLast?.map number).getD 0 + rank := by
  rw [rowAt, getElem?_eq_none behind]

/-- Lines come from what they say by being given their numbers. -/
theorem Line.map_ranked (lines : List Line) :
    (ranked lines).map (renumber (rowAt lines)) = lines.map strip := by
  apply ext_getElem
  · simp [length_ranked]
  · intro rank _ bound
    rw [length_map] at bound
    simp [ranked, renumber, bare, strip, rowAt_of_lt bound]

theorem Line.strictMono_rowAt (ascending : Ascending lines) : StrictMono (rowAt lines) := by
  apply strictMono_nat_of_lt_succ
  intro rank
  -- The next place is that of a line, the first one behind the last line, or further on.
  by_cases next : rank + 1 < lines.length
  · rw [rowAt_of_lt (Nat.lt_of_succ_lt next), rowAt_of_lt next]
    exact pairwise_iff_getElem.mp ascending rank (rank + 1) _ next (Nat.lt_succ_self rank)
  rw [rowAt_of_le (Nat.le_of_not_lt next)]
  by_cases here : rank < lines.length
  · have last : lines.getLast? = some lines[rank] := by
      rw [getLast?_eq_getElem?, show lines.length - 1 = rank by omega, getElem?_eq_getElem here]
    rw [rowAt_of_lt here, last, Option.map_some, Option.getD_some]
    omega
  · rw [rowAt_of_le (Nat.le_of_not_lt here)]
    omega

/-- The numbers of lines that stand at the same place. -/
def Line.rows (first second : List Line) : List (Nat × Nat) :=
  (first.map number).zip (second.map number)

theorem Line.mem_rows (ranked : ranked first = ranked second) (bound : rank < first.length) :
    (rowAt first rank, rowAt second rank) ∈ rows first second := by
  have length : first.length = second.length := by
    rw [← length_ranked, ranked, length_ranked]
  rw [rowAt_of_lt bound, rowAt_of_lt (length ▸ bound)]
  apply mem_iff_getElem.mpr
  refine ⟨rank, ?_, ?_⟩
  · simpa [rows, ← length] using bound
  · simp [rows]

end Common

section Skipping

/-- The numbers from a bound on are moved up by one, the numbers below it stay. -/
def skip (bound number : Nat) : Nat :=
  if number < bound then number else number + 1

theorem strictMono_skip (bound : Nat) : StrictMono (skip bound) := by
  intro first second less
  unfold skip
  split <;> split <;> omega

theorem lt_of_skip {number : Nat} (fixed : skip bound number = number) : number < bound := by
  unfold skip at fixed
  split at fixed
  · assumption
  · omega

theorem Line.map_skip (below : ∀ line ∈ lines, line.number < bound) :
    lines.map (renumber (skip bound)) = lines := by
  nth_rewrite 2 [← map_id lines]
  apply map_congr_left
  intro line member
  rw [renumber, skip, if_pos (below line member)]
  rfl

end Skipping

section Anomalies

/-- The anomalies of lines that are read from the outside. -/
def Anomaly.ofLines (lines : List Line) : List Anomaly :=
  lines.filterMap Line.anomaly? ++ (lines.foldl Nesting.advance {}).leftovers

theorem Line.anomaly?_of_not_loud (silent : line.isLoud = false) : line.anomaly? = none := by
  rcases line.shape_of_not_loud silent with shape | shape <;> rw [anomaly?, shape]

theorem Nesting.advance_of_not_loud (silent : line.isLoud = false) (nesting : Nesting) :
    nesting.advance line = nesting := by
  rcases line.shape_of_not_loud silent with shape | shape <;> rw [advance, shape]

theorem Nesting.foldl_advance_loud (nesting : Nesting) (lines : List Line) :
    (lines.filter Line.isLoud).foldl advance nesting =
      lines.foldl advance nesting := by
  induction lines generalizing nesting with
  | nil => rfl
  | cons line lines ih =>
    rw [filter_cons, foldl_cons]
    split
    next => rw [foldl_cons, ih]
    next silent => rw [advance_of_not_loud (Bool.eq_false_iff.mpr silent), ih]

/-- Blank lines and comments have no part in anomalies. -/
theorem Anomaly.ofLines_loud (lines : List Line) :
    ofLines (lines.filter Line.isLoud) = ofLines lines := by
  have shown : (lines.filter Line.isLoud).filterMap Line.anomaly? =
      lines.filterMap Line.anomaly? := by
    rw [filterMap_filter]
    apply filterMap_congr
    intro line _
    split
    next => rfl
    next silent => rw [Line.anomaly?_of_not_loud (Bool.eq_false_iff.mpr silent)]
  rw [ofLines, shown, Nesting.foldl_advance_loud]
  rfl

/-- An anomaly on another line. -/
def Anomaly.renumber (row : Nat → Nat) (found : Anomaly) : Anomaly :=
  { found with line := row found.line }

/-- What is open, with other line numbers. -/
def Nesting.renumber (row : Nat → Nat) (nesting : Nesting) : Nesting where
  blocks := nesting.blocks.map fun block => { block with line := row block.line }
  segment := nesting.segment.map fun segment => { segment with line := row segment.line }

theorem Nesting.leftovers_renumber (row : Nat → Nat) (nesting : Nesting) :
    (nesting.renumber row).leftovers = nesting.leftovers.map (.renumber row) := by
  cases open_ : nesting.segment <;>
    simp [leftovers, renumber, open_, Anomaly.renumber, OpenBlock.label]

variable {row : Nat → Nat} {relabel : Line → Line} (renumbers : Line.Renumbers row relabel)
include renumbers

theorem Line.anomaly?_map (line : Line) :
    (relabel line).anomaly? = line.anomaly?.map (.renumber row) := by
  rw [anomaly?, renumbers.shape, renumbers.depth, renumbers.number, renumbers.stripped,
    anomaly?]
  split
  · split <;> rfl
  · rfl
  · rfl

theorem Nesting.advance_map (nesting : Nesting) (line : Line) :
    (nesting.renumber row).advance (relabel line) = (nesting.advance line).renumber row := by
  rw [advance, renumbers.shape, renumbers.number, advance]
  split <;> simp [renumber]

theorem Nesting.foldl_advance_map (nesting : Nesting) (lines : List Line) :
    (lines.map relabel).foldl advance (nesting.renumber row) =
      (lines.foldl advance nesting).renumber row := by
  induction lines generalizing nesting with
  | nil => rfl
  | cons line lines ih =>
    rw [map_cons, foldl_cons, advance_map renumbers, ih, foldl_cons]

/-- The anomalies of lines under other numbers. -/
theorem Anomaly.ofLines_map (lines : List Line) :
    ofLines (lines.map relabel) = (ofLines lines).map (.renumber row) := by
  have shown : (lines.map relabel).filterMap Line.anomaly? =
      (lines.filterMap Line.anomaly?).map (.renumber row) := by
    rw [filterMap_map, map_filterMap]
    exact filterMap_congr fun line _ => Line.anomaly?_map renumbers line
  have opened := Nesting.foldl_advance_map renumbers {} lines
  rw [ofLines, shown, show ({} : Nesting) = Nesting.renumber row {} from rfl, opened,
    Nesting.leftovers_renumber, ofLines, map_append]

omit renumbers in
theorem Anomaly.line_lt_of_mem_ofLines {found : Anomaly}
    (below : ∀ line ∈ lines, line.number < bound) (member : found ∈ ofLines lines) :
    found.line < bound := by
  have same := ofLines_map (Line.renumbers_renumber (strictMono_skip bound)) lines
  rw [Line.map_skip below] at same
  have fixed := map_inj_left.mp (same.symm.trans (map_id _).symm) found member
  exact lt_of_skip (congrArg line fixed)

omit renumbers in
/-- The anomalies of lines are those of what the lines say, on the numbers of the lines. -/
theorem Anomaly.ofLines_eq (ascending : Ascending lines) :
    ofLines lines =
      (ofLines (Line.ranked lines)).map (.renumber (Line.rowAt lines)) := by
  have stripped := ofLines_map Line.renumbers_strip lines
  rw [← Line.map_ranked,
    ofLines_map (Line.renumbers_renumber (Line.strictMono_rowAt ascending))] at stripped
  exact (stripped.trans (map_id _)).symm

/-- The same anomaly on corresponding lines. -/
structure Anomaly.Matches (rows : List (Nat × Nat)) (first second : Anomaly) : Prop where
  kind : first.kind = second.kind
  line : (first.line, second.line) ∈ rows

omit renumbers in
theorem Anomaly.forall₂_ofLines (ascending₁ : Ascending first)
    (ascending₂ : Ascending second) (ranked : Line.ranked first = Line.ranked second) :
    Forall₂ (Anomaly.Matches (Line.rows first second)) (ofLines first)
      (ofLines second) := by
  rw [ofLines_eq ascending₁, ofLines_eq ascending₂, ← ranked,
    forall₂_map_left_iff, forall₂_map_right_iff, forall₂_same]
  intro found member
  have bound := line_lt_of_mem_ofLines (fun _ => Line.number_lt_of_mem_ranked) member
  exact ⟨rfl, Line.mem_rows ranked bound⟩

end Anomalies

namespace Lint

/-- The violations of lines. -/
def found (settings : LintSettings) (lines : List Line) : List Violation :=
  applyRules settings.rules settings.disabledRules settings.severities
    (.ofDocument (.ofLexed ⟨lines, []⟩))

theorem found_map {row : Nat → Nat} {relabel : Line → Line} (renumbers : Line.Renumbers row relabel)
    (place : Option Int → Option Int)
    (places : ∀ number : Nat, place (some (number : Int)) = some (row number : Int))
    (settings : LintSettings) (lines : List Line) :
    found settings (lines.map relabel) = (found settings lines).map (.reline place) := by
  rw [found, Model.ofDocument_map renumbers places lines [] [], applyRules_reline]
  rfl

/-- Every place but the numbers below a bound is moved. -/
def leap (bound : Nat) : Option Int → Option Int
  | some (.ofNat number) => some (skip bound number)
  | some (.negSucc _) => none
  | none => some 0

theorem exists_of_leap {line : Option Int} (fixed : leap bound line = line) :
    ∃ number < bound, line = some (number : Int) := by
  unfold leap at fixed
  split at fixed
  next number => exact ⟨number, lt_of_skip (Int.ofNat.inj (Option.some.inj fixed)), rfl⟩
  next => cases fixed
  next => cases fixed

theorem exists_line_of_mem_found {settings : LintSettings}
    {violation : Violation} (below : ∀ line ∈ lines, line.number < bound)
    (member : violation ∈ found settings lines) :
    ∃ number < bound, violation.line = some (number : Int) := by
  -- The lines keep their numbers, so violations stay where they are.  A violation in any other
  -- place would be moved.
  have renumbers := Line.renumbers_renumber (strictMono_skip bound)
  have same := found_map renumbers (leap bound) (fun _ => rfl) settings lines
  rw [Line.map_skip below] at same
  have fixed := map_inj_left.mp (same.symm.trans (map_id _).symm) violation member
  exact exists_of_leap (congrArg Violation.line fixed)

/-- Lines moved by a change of their numbers. -/
def placeBy (row : Nat → Nat) : Option Int → Option Int :=
  Option.map fun line => row line.toNat

/-- The violations of lines are those of what the lines say, on the numbers of the lines. -/
theorem found_eq (ascending : Ascending lines) (settings : LintSettings) :
    found settings lines =
      (found settings (Line.ranked lines)).map (.reline (placeBy (Line.rowAt lines))) := by
  -- Without blanks around their texts the lines are the ranked ones under other numbers.
  have stripped := found_map Line.renumbers_strip id (fun _ => rfl) settings lines
  rw [← Line.map_ranked, found_map (Line.renumbers_renumber (Line.strictMono_rowAt ascending))
    (placeBy _) fun _ => rfl] at stripped
  exact (stripped.trans (map_id _)).symm

/-- The same finding on corresponding lines. -/
structure Violation.Matches (rows : List (Nat × Nat)) (first second : Violation) : Prop where
  rule : first.rule = second.rule
  message : first.message = second.message
  severity : first.severity = second.severity
  path : first.path = second.path
  data : first.data = second.data
  line : ∃ pair ∈ rows, first.line = some (pair.1 : Int) ∧ second.line = some (pair.2 : Int)

theorem forall₂_found (ascending₁ : Ascending first)
    (ascending₂ : Ascending second) (ranked : Line.ranked first = Line.ranked second)
    (settings : LintSettings) :
    Forall₂ (Violation.Matches (Line.rows first second)) (found settings first)
      (found settings second) := by
  rw [found_eq ascending₁, found_eq ascending₂, ← ranked, forall₂_map_left_iff,
    forall₂_map_right_iff, forall₂_same]
  intro violation member
  obtain ⟨number, bound, line⟩ :=
    exists_line_of_mem_found (fun _ => Line.number_lt_of_mem_ranked) member
  refine ⟨rfl, rfl, rfl, rfl, rfl, _, Line.mem_rows ranked bound, ?_, ?_⟩
  · rw [Violation.reline, line]
    rfl
  · rw [Violation.reline, line]
    rfl

/-- The lines of a text that are linted. -/
def loudLines (settings : Settings) (text : Text) : List Line :=
  (Lexed.ofText settings.format.segmentProperties text).lines.filter Line.isLoud

theorem ascending_loudLines (settings : Settings) (text : Text) :
    Ascending (loudLines settings text) :=
  (Lexed.ascending_ofText _ text).filter _

section Structural

variable {settings : Settings} (enabled : settings.lint.enabled = true)
  (structural : settings.lint.useFallbackReader = false) (text : Text)
include enabled structural

theorem violations_lintText :
    (lintText settings text).violations = found settings.lint (loudLines settings text) := by
  have run := Lexed.run_ofText settings.format.segmentProperties text
  have quiet := Model.ofDocument_loud run
    (Lexed.ofText settings.format.segmentProperties text).anomalies []
  have rules : found settings.lint (loudLines settings text) =
      applyRules settings.lint.rules settings.lint.disabledRules settings.lint.severities
        (.ofDocument (.ofText settings.format.segmentProperties text)) := by
    rw [found, loudLines, quiet]
    rfl
  have located (violation : Violation)
      (member : violation ∈ found settings.lint (loudLines settings text)) :
      violation.located text = violation := by
    rw [found_eq (ascending_loudLines settings text)] at member
    obtain ⟨other, isFound, rfl⟩ := mem_map.mp member
    obtain ⟨number, -, line⟩ :=
      exists_line_of_mem_found (fun _ => Line.number_lt_of_mem_ranked) isFound
    rw [Violation.located, Violation.reline, line]
    rfl
  rw [lintText, if_neg (by simp [enabled]), if_neg (by simp [structural])]
  dsimp only
  rw [violationsOf, ← rules]
  nth_rewrite 2 [← map_id (found settings.lint (loudLines settings text))]
  exact map_congr_left located

theorem anomalies_lintText :
    (lintText settings text).anomalies = Anomaly.ofLines (loudLines settings text) := by
  rw [lintText, if_neg (by simp [enabled]), if_neg (by simp [structural]), loudLines,
    Anomaly.ofLines_loud]
  rfl

end Structural

/-- Texts whose lines say the same, blank lines and comments left aside, are linted alike. -/
theorem lintText_of_stripped {settings : Settings}
    (structural : settings.lint.useFallbackReader = false) {first second : Text}
    (same : (loudLines settings first).map Line.stripped =
      (loudLines settings second).map Line.stripped) :
    List.Forall₂ (Violation.Matches
      (Line.rows (loudLines settings first) (loudLines settings second)))
        (lintText settings first).violations (lintText settings second).violations ∧
      List.Forall₂ (Anomaly.Matches
        (Line.rows (loudLines settings first) (loudLines settings second)))
        (lintText settings first).anomalies (lintText settings second).anomalies ∧
      (lintText settings first).reader = (lintText settings second).reader := by
  have run₁ := (Lexed.run_ofText settings.format.segmentProperties first).loud
  have run₂ := (Lexed.run_ofText settings.format.segmentProperties second).loud
  have ranked : Line.ranked (loudLines settings first) = Line.ranked (loudLines settings second) :=
    congrArg (List.mapIdx _) (run₁.bare_eq run₂ same)
  by_cases enabled : settings.lint.enabled = true
  · rw [violations_lintText enabled structural, violations_lintText enabled structural,
      anomalies_lintText enabled structural, anomalies_lintText enabled structural]
    refine ⟨?_, ?_, ?_⟩
    · exact forall₂_found (ascending_loudLines settings first)
        (ascending_loudLines settings second) ranked _
    · exact Anomaly.forall₂_ofLines (ascending_loudLines settings first)
        (ascending_loudLines settings second) ranked
    · simp [lintText, enabled, structural]
  · have disabled (text : Text) : lintText settings text = {} := by simp [lintText, enabled]
    rw [disabled, disabled]
    exact ⟨.nil, .nil, rfl⟩

/-- A view that breaks two rules and is not closed. -/
def terseView : Text :=
  "view: v \x7b\nsql_table_name: t ;;\ndimension: d \x7b\nsql: $\x7bw.d\x7d ;;\n\x7d".toList

/-- The same view, laid out and remarked on. -/
def remarkedTerseView : Text :=
  ("# v\n\nview: v \x7b\n  sql_table_name: t ;;\n  # d\n  dimension: d \x7b\n" ++
    "    sql: $\x7bw.d\x7d ;;\n\n  \x7d\n").toList

theorem lintText_of_stripped_terseView :
    (lintText {} terseView).violations.map Violation.line = [some 0, some 2] ∧
      (lintText {} terseView).anomalies = [⟨0, .unterminatedBlock "view: v".toList⟩] ∧
      List.Forall₂ (Violation.Matches
        (Line.rows (loudLines {} terseView) (loudLines {} remarkedTerseView)))
        (lintText {} terseView).violations (lintText {} remarkedTerseView).violations := by
  have same : (loudLines {} terseView).map Line.stripped =
      (loudLines {} remarkedTerseView).map Line.stripped := by
    decide +kernel
  exact ⟨by decide +kernel, by decide +kernel, (lintText_of_stripped rfl same).1⟩

end Lint

end LookML
