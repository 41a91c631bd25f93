import LookML.Document.Builder
import LookML.Proofs.Level
import Mathlib.Data.List.Chain

/-!
# Headers and closing braces as brackets

The headers and closing braces among the lines of a text are a word of brackets.  What is
open when the text ends are the headers that no brace matches, and the segment that no
terminator ends.  So the anomalies of a text say exactly what is wrong with that word, and
nesting is intact if the word is balanced and every segment ended.
-/

namespace LookML

open Text Code List

variable {lines : List Line}

namespace Shape

/-- Whether a line is the header of a block that later lines fill. -/
def opensBlock : Shape → Bool
  | .blockOpen .. => true
  | _ => false

/-- Whether a line opens a segment that later lines go on with. -/
def opensSegment : Shape → Bool
  | .segmentOpen .. => true
  | _ => false

theorem exists_of_opensBlock {shape : Shape} (opens : shape.opensBlock = true) :
    ∃ key name, shape = .blockOpen key name := by
  cases shape <;> cases opens
  exact ⟨_, _, rfl⟩

theorem exists_of_opensSegment {shape : Shape} (opens : shape.opensSegment = true) :
    ∃ key value, shape = .segmentOpen key value := by
  cases shape <;> cases opens
  exact ⟨_, _, rfl⟩

theorem ne_blockClose_of_opens {shape : Shape} (opens : shape.opensBlock = true) :
    shape ≠ .blockClose := by
  rintro rfl
  cases opens

/-- A line opens a block, closes one, or does neither. -/
theorem bracket_cases (shape : Shape) : shape.opensBlock = true ∨ shape = .blockClose ∨
    (shape.opensBlock = false ∧ shape ≠ .blockClose) := by
  cases shape <;> simp [opensBlock]

/-- The depth behind a line at a depth. -/
def depthBehind (depth : Nat) : Shape → Nat
  | .blockOpen .. => depth + 1
  | .blockClose => depth - 1
  | _ => depth

theorem depthBehind_of_plain {shape : Shape} (notOpen : shape.opensBlock = false)
    (notClose : shape ≠ .blockClose) (depth : Nat) : shape.depthBehind depth = depth := by
  cases shape with
  | blockOpen => cases notOpen
  | blockClose => exact absurd rfl notClose
  | _ => rfl

end Shape

theorem Level.depth_next (level : Level) (shape : Shape) :
    (level.next shape).depth = shape.depthBehind level.depth := by
  cases shape <;> rfl

/-- Lines whose headers and closing braces match each other. -/
inductive Balanced : List Line → Prop
  | nil : Balanced []
  | plain {line : Line} {lines : List Line} (notOpen : line.shape.opensBlock = false)
      (notClose : line.shape ≠ .blockClose) (later : Balanced lines) : Balanced (line :: lines)
  | block {opening closing : Line} {inner lines : List Line}
      (opens : opening.shape.opensBlock = true) (within : Balanced inner)
      (closes : closing.shape = .blockClose) (later : Balanced lines) :
      Balanced (opening :: inner ++ closing :: lines)

/-- Lines among which a header before them has its closing brace. -/
def Matched (lines : List Line) : Prop :=
  ∃ inner closing rest, lines = inner ++ closing :: rest ∧ Balanced inner ∧
    closing.shape = .blockClose

/-- Lines with the headers that no closing brace matches, in order. -/
inductive LeavesOpen : List Line → List Line → Prop
  | nil : LeavesOpen [] []
  | other {line : Line} {lines headers : List Line} (notOpen : line.shape.opensBlock = false)
      (later : LeavesOpen lines headers) : LeavesOpen (line :: lines) headers
  | matched {line : Line} {lines headers : List Line} (opens : line.shape.opensBlock = true)
      (closed : Matched lines) (later : LeavesOpen lines headers) :
      LeavesOpen (line :: lines) headers
  | unmatched {line : Line} {lines headers : List Line} (opens : line.shape.opensBlock = true)
      (open_ : ¬ Matched lines) (later : LeavesOpen lines headers) :
      LeavesOpen (line :: lines) (line :: headers)

/-- What is left of the brackets once those that match are gone: a number of closing braces,
and the headers behind them. -/
def residue : List Line → Nat × List Line
  | [] => (0, [])
  | line :: lines =>
    let rest := residue lines
    match line.shape with
    | .blockOpen .. => if rest.1 = 0 then (0, line :: rest.2) else (rest.1 - 1, rest.2)
    | .blockClose => (rest.1 + 1, rest.2)
    | _ => rest

section Residue

variable {line : Line}

theorem residue_of_opens (opens : line.shape.opensBlock = true) (lines : List Line) :
    residue (line :: lines) =
      if (residue lines).1 = 0 then (0, line :: (residue lines).2)
      else ((residue lines).1 - 1, (residue lines).2) := by
  obtain ⟨key, name, shape⟩ := Shape.exists_of_opensBlock opens
  rw [residue, shape]

theorem residue_of_closes (closes : line.shape = .blockClose) (lines : List Line) :
    residue (line :: lines) = ((residue lines).1 + 1, (residue lines).2) := by
  rw [residue, closes]

theorem residue_of_plain (notOpen : line.shape.opensBlock = false)
    (notClose : line.shape ≠ .blockClose) (lines : List Line) :
    residue (line :: lines) = residue lines := by
  rw [residue]
  cases shape : line.shape with
  | blockOpen key name => simp [shape, Shape.opensBlock] at notOpen
  | blockClose => exact absurd shape notClose
  | _ => rfl

theorem Balanced.residue_append (balanced : Balanced lines) (rest : List Line) :
    residue (lines ++ rest) = residue rest := by
  induction balanced generalizing rest with
  | nil => rfl
  | plain notOpen notClose _ ih => rw [cons_append, residue_of_plain notOpen notClose, ih]
  | block opens _ closes _ inner later =>
    rw [append_assoc, cons_append, cons_append, residue_of_opens opens, inner,
      residue_of_closes closes, later]
    simp

/-- Where a closing brace is left, everything before the first one is balanced. -/
theorem matched_of_residue {count : Nat} {headers : List Line}
    (left : residue lines = (count + 1, headers)) :
    ∃ inner closing rest, lines = inner ++ closing :: rest ∧ Balanced inner ∧
      closing.shape = .blockClose ∧ residue rest = (count, headers) := by
  -- A header takes up the first brace left behind it, so the second one is looked for
  -- among the lines behind that.
  induction length : lines.length using Nat.strong_induction_on generalizing lines count with
  | _ length_ ih =>
    cases lines with
    | nil => cases left
    | cons line lines =>
      have shorter : lines.length < length_ := by
        rw [← length, length_cons]
        omega
      rcases line.shape.bracket_cases with opens | closes | ⟨notOpen, notClose⟩
      · rw [residue_of_opens opens] at left
        split at left
        · cases left
        · obtain ⟨fewer, same⟩ := Prod.mk.inj left
          have two : residue lines = (count + 1 + 1, headers) :=
            Prod.ext (by dsimp only; omega) same
          obtain ⟨inner, closing, rest, rfl, within, closes, behind⟩ := ih _ shorter two rfl
          have rest_shorter : rest.length < length_ := by
            simp only [length_append, length_cons] at shorter
            omega
          obtain ⟨inner', closing', rest', rfl, within', closes', behind'⟩ :=
            ih _ rest_shorter behind rfl
          exact ⟨line :: inner ++ closing :: inner', closing', rest', by simp,
            .block opens within closes within', closes', behind'⟩
      · rw [residue_of_closes closes] at left
        obtain ⟨fewer, same⟩ := Prod.mk.inj left
        exact ⟨[], line, lines, rfl, .nil, closes, Prod.ext (Nat.succ.inj fewer) same⟩
      · rw [residue_of_plain notOpen notClose] at left
        obtain ⟨inner, closing, rest, rfl, within, isClose, behind⟩ := ih _ shorter left rfl
        exact ⟨line :: inner, closing, rest, rfl, .plain notOpen notClose within, isClose, behind⟩

theorem matched_iff : Matched lines ↔ (residue lines).1 ≠ 0 := by
  constructor
  · rintro ⟨inner, closing, rest, rfl, balanced, closes⟩
    rw [balanced.residue_append, residue_of_closes closes]
    exact Nat.succ_ne_zero _
  · intro some_
    obtain ⟨count, same⟩ := Nat.exists_eq_succ_of_ne_zero some_
    have left : residue lines = (count + 1, (residue lines).2) := Prod.ext same rfl
    obtain ⟨inner, closing, rest, whole, balanced, closes, -⟩ := matched_of_residue left
    exact ⟨inner, closing, rest, whole, balanced, closes⟩

theorem leavesOpen_residue (lines : List Line) : LeavesOpen lines (residue lines).2 := by
  induction lines with
  | nil => exact .nil
  | cons line lines ih =>
    rcases line.shape.bracket_cases with opens | closes | ⟨notOpen, notClose⟩
    · rw [residue_of_opens opens]
      split
      next none_ => exact .unmatched opens (fun matched => matched_iff.mp matched none_) ih
      next some_ => exact .matched opens (matched_iff.mpr some_) ih
    · rw [residue_of_closes closes]
      exact .other (by rw [closes]; rfl) ih
    · rw [residue_of_plain notOpen notClose]
      exact .other notOpen ih

theorem balanced_iff : Balanced lines ↔ residue lines = (0, []) := by
  constructor
  · intro balanced
    have whole := balanced.residue_append []
    rwa [append_nil] at whole
  · intro left
    induction length : lines.length using Nat.strong_induction_on generalizing lines with
    | _ length_ ih =>
      cases lines with
      | nil => exact .nil
      | cons line lines =>
        rcases line.shape.bracket_cases with opens | closes | ⟨notOpen, notClose⟩
        · rw [residue_of_opens opens] at left
          split at left
          · cases left
          · obtain ⟨fewer, same⟩ := Prod.mk.inj left
            have one : residue lines = (0 + 1, []) := Prod.ext (by dsimp only; omega) same
            obtain ⟨inner, closing, rest, rfl, within, closes, behind⟩ := matched_of_residue one
            refine .block opens within closes (ih _ ?_ behind rfl)
            simp only [← length, length_cons, length_append]
            omega
        · rw [residue_of_closes closes] at left
          cases left
        · rw [residue_of_plain notOpen notClose] at left
          refine .plain notOpen notClose (ih _ ?_ left rfl)
          simp only [← length, length_cons]
          omega

end Residue

/-- The block that a header opens. -/
def Line.openBlock (line : Line) : OpenBlock :=
  ⟨line.number, line.shape.key?, line.shape.name?⟩

namespace Nesting

variable {nesting : Nesting} {line : Line}

theorem blocks_advance_of_opens (opens : line.shape.opensBlock = true) :
    (nesting.advance line).blocks = line.openBlock :: nesting.blocks := by
  obtain ⟨key, name, shape⟩ := Shape.exists_of_opensBlock opens
  simp [advance, Line.openBlock, shape, Shape.key?, Shape.name?]

theorem blocks_advance_of_closes (closes : line.shape = .blockClose) :
    (nesting.advance line).blocks = nesting.blocks.tail := by
  simp [advance, closes]

theorem blocks_advance_of_plain (notOpen : line.shape.opensBlock = false)
    (notClose : line.shape ≠ .blockClose) : (nesting.advance line).blocks = nesting.blocks := by
  unfold advance
  cases shape : line.shape with
  | blockOpen key name => simp [shape, Shape.opensBlock] at notOpen
  | blockClose => exact absurd shape notClose
  | _ => rfl

/-- The blocks open behind lines: the headers they leave, and what their braces leave of the
blocks that were open before. -/
theorem blocks_foldl (nesting : Nesting) (lines : List Line) :
    (lines.foldl advance nesting).blocks =
      (residue lines).2.reverse.map Line.openBlock ++ nesting.blocks.drop (residue lines).1 := by
  induction lines generalizing nesting with
  | nil => rfl
  | cons line lines ih =>
    rw [foldl_cons, ih]
    rcases line.shape.bracket_cases with opens | closes | ⟨notOpen, notClose⟩
    · rw [blocks_advance_of_opens opens, residue_of_opens opens]
      split
      next none_ => simp [none_]
      next some_ =>
        obtain ⟨count, same⟩ := Nat.exists_eq_succ_of_ne_zero some_
        simp [same]
    · simp [blocks_advance_of_closes closes, residue_of_closes closes]
    · rw [blocks_advance_of_plain notOpen notClose, residue_of_plain notOpen notClose]

theorem segment_advance_of_opens {key value : Text} (opens : line.shape = .segmentOpen key value) :
    (nesting.advance line).segment = some ⟨line.number, key⟩ := by
  simp [advance, opens]

theorem segment_advance_of_closes (closes : line.shape = .segmentClose) :
    (nesting.advance line).segment = none := by
  simp [advance, closes]

theorem segment_advance_of_plain (notOpen : line.shape.opensSegment = false)
    (notClose : line.shape ≠ .segmentClose) : (nesting.advance line).segment = nesting.segment := by
  unfold advance
  cases shape : line.shape with
  | segmentOpen key value => simp [shape, Shape.opensSegment] at notOpen
  | segmentClose => exact absurd shape notClose
  | _ => rfl

/-- Behind lines that open no segment, a segment is open if it was open before and none of
them ends it. -/
theorem segment_foldl (notOpen : ∀ line ∈ lines, line.shape.opensSegment = false) :
    (lines.foldl advance nesting).segment =
      if ∃ line ∈ lines, line.shape = .segmentClose then none else nesting.segment := by
  induction lines generalizing nesting with
  | nil => simp
  | cons line lines ih =>
    rw [foldl_cons, ih (forall_mem_cons.mp notOpen).2]
    by_cases closes : line.shape = .segmentClose
    · simp [closes, segment_advance_of_closes closes]
    · simp [closes, segment_advance_of_plain (notOpen line mem_cons_self) closes]

/-- A segment stays open behind lines none of which ends it. -/
theorem isSome_segment_foldl (open_ : nesting.segment.isSome = true)
    (notClose : ∀ line ∈ lines, line.shape ≠ .segmentClose) :
    (lines.foldl advance nesting).segment.isSome = true := by
  induction lines generalizing nesting with
  | nil => exact open_
  | cons line lines ih =>
    refine ih ?_ (forall_mem_cons.mp notClose).2
    by_cases opens : line.shape.opensSegment = true
    · obtain ⟨key, value, shape⟩ := Shape.exists_of_opensSegment opens
      rw [segment_advance_of_opens shape]
      rfl
    · rwa [segment_advance_of_plain (Bool.eq_false_iff.mpr opens)
        (notClose line mem_cons_self)]

end Nesting

/-- Lines with the line of the segment that none of them ends: the last one to open a
segment, unless a terminator follows it. -/
inductive LeavesSegment : List Line → Option Line → Prop
  | none {lines : List Line} (never : ∀ line ∈ lines, line.shape.opensSegment = false) :
      LeavesSegment lines none
  | closed {before after : List Line} {opening : Line}
      (opens : opening.shape.opensSegment = true)
      (last : ∀ line ∈ after, line.shape.opensSegment = false)
      (ended : ∃ line ∈ after, line.shape = .segmentClose) :
      LeavesSegment (before ++ opening :: after) none
  | open_ {before after : List Line} {opening : Line}
      (opens : opening.shape.opensSegment = true)
      (last : ∀ line ∈ after, line.shape.opensSegment = false)
      (unended : ∀ line ∈ after, line.shape ≠ .segmentClose) :
      LeavesSegment (before ++ opening :: after) (some opening)

/-- The segment that a line opens. -/
def Line.openSegment (line : Line) : OpenSegment :=
  ⟨line.number, line.shape.key?.getD []⟩

/-- Lines cut at the last of them that satisfies a test. -/
theorem exists_last (test : Line → Bool) (some_ : ∃ line ∈ lines, test line = true) :
    ∃ before last after, lines = before ++ last :: after ∧ test last = true ∧
      ∀ line ∈ after, test line = false := by
  induction lines with
  | nil => simp at some_
  | cons line lines ih =>
    by_cases later : ∃ other ∈ lines, test other = true
    · obtain ⟨before, last, after, rfl, holds, none_⟩ := ih later
      exact ⟨line :: before, last, after, rfl, holds, none_⟩
    · have none_ : ∀ other ∈ lines, test other = false := by simpa using later
      refine ⟨[], line, lines, rfl, ?_, none_⟩
      obtain ⟨other, member, holds⟩ := some_
      rcases mem_cons.mp member with rfl | inRest
      · exact holds
      · exact absurd ⟨other, inRest, holds⟩ later

/-- The segment open behind lines from outside segments. -/
theorem leavesSegment_foldl (lines : List Line) (nesting : Nesting)
    (outside : nesting.segment = none) :
    ∃ opening, LeavesSegment lines opening ∧
      (lines.foldl Nesting.advance nesting).segment = opening.map Line.openSegment := by
  by_cases some_ : ∃ line ∈ lines, line.shape.opensSegment = true
  · obtain ⟨before, opening, after, rfl, opens, last⟩ :=
      exists_last (fun line => line.shape.opensSegment) some_
    rw [foldl_append, foldl_cons, Nesting.segment_foldl last]
    split
    next ended => exact ⟨none, .closed opens last ended, rfl⟩
    next unended =>
      refine ⟨some opening, .open_ opens last (by simpa using unended), ?_⟩
      obtain ⟨key, value, shape⟩ := Shape.exists_of_opensSegment opens
      simp [Nesting.segment_advance_of_opens shape, Line.openSegment, shape, Shape.key?]
  · have never : ∀ line ∈ lines, line.shape.opensSegment = false := by simpa using some_
    refine ⟨none, .none never, ?_⟩
    rw [Nesting.segment_foldl never, outside, ite_self]
    rfl

/-- Whether every segment that lines open is ended by a later one of them. -/
def SegmentsEnd (lines : List Line) : Prop :=
  ∀ before opening after, lines = before ++ opening :: after → opening.shape.opensSegment = true →
    ∃ line ∈ after, line.shape = .segmentClose

theorem segmentsEnd_iff (lines : List Line) :
    SegmentsEnd lines ↔ (lines.foldl Nesting.advance {}).segment = none := by
  constructor
  · intro ended
    obtain ⟨opening, leaves, same⟩ := leavesSegment_foldl lines {} rfl
    cases leaves with
    | none | closed => exact same
    | open_ opens _ unended =>
      obtain ⟨line, member, closes⟩ := ended _ _ _ rfl opens
      exact absurd closes (unended line member)
  · rintro outside before opening after rfl opens
    by_contra unended
    have notClose : ∀ line ∈ after, line.shape ≠ .segmentClose := by simpa using unended
    have open_ : ((before.foldl Nesting.advance {}).advance opening).segment.isSome = true := by
      obtain ⟨key, value, shape⟩ := Shape.exists_of_opensSegment opens
      rw [Nesting.segment_advance_of_opens shape]
      rfl
    have stays := Nesting.isSome_segment_foldl open_ notClose
    rw [foldl_append, foldl_cons] at outside
    rw [outside] at stays
    cases stays

namespace AnomalyKind

/-- Whether an anomaly is a header that cannot be read. -/
def isMalformed : AnomalyKind → Bool
  | malformedHeader _ => true
  | _ => false

/-- Whether an anomaly is a segment that is never ended. -/
def isOpenSegment : AnomalyKind → Bool
  | unterminatedSegment _ => true
  | _ => false

/-- Whether an anomaly is a block that is never closed. -/
def isOpenBlock : AnomalyKind → Bool
  | unterminatedBlock _ => true
  | _ => false

/-- The order in which anomalies are found: those of single lines, the open segment, the open
blocks. -/
def stage : AnomalyKind → Nat
  | unmatchedClose | malformedHeader _ => 0
  | unterminatedSegment _ => 1
  | unterminatedBlock _ => 2

end AnomalyKind

/-- The anomaly of a block that is never closed. -/
def Line.leftOpen (line : Line) : Anomaly :=
  ⟨line.number, .unterminatedBlock line.openBlock.label⟩

/-- The anomaly of a segment that is never ended. -/
def Line.leftUnended (line : Line) : Anomaly :=
  ⟨line.number, .unterminatedSegment line.openSegment.property⟩

/-- The anomaly of a header that cannot be read. -/
def Line.malformed (line : Line) : Anomaly :=
  ⟨line.number, .malformedHeader (splitComment line.stripped).1⟩

/-- The anomalies of lines, of which some show one by themselves, with the line of a segment
that is never ended and the headers that are never closed. -/
def anomaliesOf (lines : List Line) (opening : Option Line) (headers : List Line) : List Anomaly :=
  lines.filterMap Line.anomaly?
    ++ (opening.toList.map Line.leftUnended ++ headers.reverse.map Line.leftOpen)

section Anomalies

variable {headers : List Line} {opening : Option Line}

theorem Line.stage_of_anomaly {line : Line} {anomaly : Anomaly}
    (shows : line.anomaly? = some anomaly) : anomaly.kind.stage = 0 := by
  unfold anomaly? at shows
  split at shows
  · split at shows <;> cases shows
    rfl
  · cases shows
    rfl
  · cases shows

theorem Line.filter_unmatchedClose (line : Line) :
    (line.anomaly?.filter fun anomaly => decide (anomaly.kind = .unmatchedClose)) =
      if line.shape = .blockClose ∧ line.depth = 0 then some ⟨line.number, .unmatchedClose⟩
      else none := by
  unfold anomaly?
  cases shape : line.shape with
  | blockOpen key name => cases name <;> simp [Option.filter]
  | blockClose => by_cases top : line.depth = 0 <;> simp [top, Option.filter]
  | _ => simp

theorem Line.filter_malformed (line : Line) :
    (line.anomaly?.filter fun anomaly => anomaly.kind.isMalformed) =
      if line.shape.opensBlock && line.shape.name?.isNone then some line.malformed else none := by
  unfold anomaly?
  cases shape : line.shape with
  | blockOpen key name =>
    cases name with
    | none | some name => rfl
  | blockClose =>
    by_cases top : line.depth = 0
    · simp [top, Option.filter, AnomalyKind.isMalformed, Shape.opensBlock]
    · simp [top, Shape.opensBlock]
  | _ => rfl

theorem filterMap_ite {β : Type} (test : Line → Bool) (value : Line → β) (lines : List Line) :
    (lines.filterMap fun line => if test line then some (value line) else none) =
      (lines.filter test).map value := by
  induction lines with
  | nil => rfl
  | cons line lines ih => by_cases holds : test line = true <;> simp [holds, ih]

/-- Anomalies of one kind: those that lines show by themselves, the segment, the blocks. -/
theorem filter_anomaliesOf (test : AnomalyKind → Bool) :
    (anomaliesOf lines opening headers).filter (fun anomaly => test anomaly.kind) =
      (lines.filterMap fun line => line.anomaly?.filter fun anomaly => test anomaly.kind)
        ++ ((opening.toList.map Line.leftUnended).filter (fun anomaly => test anomaly.kind)
          ++ (headers.reverse.map Line.leftOpen).filter fun anomaly => test anomaly.kind) := by
  rw [anomaliesOf, filter_append, filter_append, filter_filterMap]

/-- Lines show no anomalies that the end of the text shows. -/
theorem filterMap_eq_nil (test : AnomalyKind → Bool)
    (later : ∀ kind : AnomalyKind, kind.stage = 0 → test kind = false) :
    (lines.filterMap fun line => line.anomaly?.filter fun anomaly => test anomaly.kind) = [] := by
  apply filterMap_eq_nil_iff.mpr
  intro line _
  cases shows : line.anomaly? with
  | none => rfl
  | some anomaly => simp [Option.filter, later _ (Line.stage_of_anomaly shows)]

theorem unmatchedCloses_anomaliesOf :
    (anomaliesOf lines opening headers).filter (·.kind = .unmatchedClose) =
      (lines.filter fun line => line.shape = .blockClose ∧ line.depth = 0).map
        fun line => ⟨line.number, .unmatchedClose⟩ := by
  rw [filter_anomaliesOf fun kind => decide (kind = .unmatchedClose),
    funext Line.filter_unmatchedClose, ← filterMap_ite]
  simp [Line.leftUnended, Line.leftOpen]

theorem malformed_anomaliesOf :
    (anomaliesOf lines opening headers).filter (·.kind.isMalformed) =
      (lines.filter fun line => line.shape.opensBlock && line.shape.name?.isNone).map
        Line.malformed := by
  rw [filter_anomaliesOf, funext Line.filter_malformed, ← filterMap_ite]
  simp [Line.leftUnended, Line.leftOpen, AnomalyKind.isMalformed]

theorem openSegment_anomaliesOf :
    (anomaliesOf lines opening headers).filter (·.kind.isOpenSegment) =
      opening.toList.map Line.leftUnended := by
  rw [filter_anomaliesOf, filterMap_eq_nil _ (by rintro (_ | _ | _ | _) <;> simp [AnomalyKind.stage,
    AnomalyKind.isOpenSegment])]
  cases opening <;> simp [Line.leftUnended, Line.leftOpen, AnomalyKind.isOpenSegment]

theorem openBlocks_anomaliesOf :
    (anomaliesOf lines opening headers).filter (·.kind.isOpenBlock) =
      headers.reverse.map Line.leftOpen := by
  rw [filter_anomaliesOf, filterMap_eq_nil _ (by rintro (_ | _ | _ | _) <;> simp [AnomalyKind.stage,
    AnomalyKind.isOpenBlock])]
  have segments : (opening.toList.map Line.leftUnended).filter (·.kind.isOpenBlock) = [] := by
    cases opening <;> simp [Line.leftUnended, AnomalyKind.isOpenBlock]
  rw [segments, nil_append, nil_append, filter_eq_self]
  intro anomaly member
  obtain ⟨line, -, rfl⟩ := mem_map.mp member
  rfl

theorem stages_anomaliesOf :
    (anomaliesOf lines opening headers).Pairwise
      fun first second => first.kind.stage ≤ second.kind.stage := by
  have shown : ∀ anomaly ∈ lines.filterMap Line.anomaly?, anomaly.kind.stage = 0 := by
    intro anomaly member
    obtain ⟨line, -, shows⟩ := mem_filterMap.mp member
    exact Line.stage_of_anomaly shows
  have segment : ∀ anomaly ∈ opening.toList.map Line.leftUnended, anomaly.kind.stage = 1 := by
    intro anomaly member
    obtain ⟨line, -, rfl⟩ := mem_map.mp member
    rfl
  have blocks : ∀ anomaly ∈ headers.reverse.map Line.leftOpen, anomaly.kind.stage = 2 := by
    intro anomaly member
    obtain ⟨line, -, rfl⟩ := mem_map.mp member
    rfl
  have constant {anomalies : List Anomaly} {stage : Nat}
      (same : ∀ anomaly ∈ anomalies, anomaly.kind.stage = stage) :
      anomalies.Pairwise fun first second => first.kind.stage ≤ second.kind.stage :=
    pairwise_of_forall_mem_list fun first inFirst second inSecond =>
      Nat.le_of_eq ((same first inFirst).trans (same second inSecond).symm)
  refine pairwise_append.mpr ⟨constant shown, pairwise_append.mpr
    ⟨constant segment, constant blocks, ?_⟩, ?_⟩
  · intro first inFirst second inSecond
    rw [segment first inFirst, blocks second inSecond]
    omega
  · intro first inFirst second _
    rw [shown first inFirst]
    omega

/-- The anomalies that break nesting: closing braces at depth zero, and whatever the end of
the text leaves open. -/
theorem any_breaksNesting_anomaliesOf :
    ((anomaliesOf lines opening headers).any fun anomaly => anomaly.kind.breaksNesting) = false ↔
      (∀ line ∈ lines, line.shape = .blockClose → line.depth ≠ 0) ∧ opening = none ∧
        headers = [] := by
  have shown : (∀ anomaly ∈ lines.filterMap Line.anomaly?, anomaly.kind.breaksNesting = false) ↔
      ∀ line ∈ lines, line.shape = .blockClose → line.depth ≠ 0 := by
    constructor
    · intro intact line member closes top
      have shows : line.anomaly? = some ⟨line.number, .unmatchedClose⟩ := by
        simp [Line.anomaly?, closes, top]
      exact absurd (intact _ (mem_filterMap.mpr ⟨line, member, shows⟩)) Bool.noConfusion
    · intro deep anomaly member
      obtain ⟨line, inLines, shows⟩ := mem_filterMap.mp member
      unfold Line.anomaly? at shows
      split at shows
      next closes =>
        rw [if_neg (deep line inLines closes)] at shows
        cases shows
      next =>
        cases shows
        rfl
      next => cases shows
  have segment : (opening.toList.map Line.leftUnended).any (·.kind.breaksNesting) = false ↔
      opening = none := by
    cases opening <;> simp [Line.leftUnended, AnomalyKind.breaksNesting]
  have blocks : (headers.reverse.map Line.leftOpen).any (·.kind.breaksNesting) = false ↔
      headers = [] := by
    cases headers <;> simp [Line.leftOpen, AnomalyKind.breaksNesting]
  rw [anomaliesOf, any_append, any_append, Bool.or_eq_false_iff, Bool.or_eq_false_iff,
    segment, blocks, ← shown, any_eq_false]
  simp only [Bool.not_eq_true]

end Anomalies

/-- What the classification of a text says about it. -/
structure Lexed.Faithful (lexed : Lexed) (text : Text) : Prop where
  /-- One line for each line of the text, with its index and its text. -/
  numbers : lexed.lines.map Line.number = List.range text.lines.length
  texts : lexed.lines.map Line.text = text.lines
  /-- Depths begin at zero and follow headers and closing braces. -/
  first : ∀ line ∈ lexed.lines.head?, line.depth = 0
  depths : lexed.lines.IsChain fun line next => next.depth = line.shape.depthBehind line.depth
  /-- Closing braces without a block are those at depth zero. -/
  unmatchedCloses : lexed.anomalies.filter (·.kind = .unmatchedClose) =
    (lexed.lines.filter fun line => line.shape = .blockClose ∧ line.depth = 0).map
      fun line => ⟨line.number, .unmatchedClose⟩
  /-- Headers that cannot be read are those without a name. -/
  malformed : lexed.anomalies.filter (·.kind.isMalformed) =
    (lexed.lines.filter fun line => line.shape.opensBlock && line.shape.name?.isNone).map
      Line.malformed
  /-- Blocks that are never closed are the headers left unmatched, innermost first. -/
  openBlocks : ∃ headers, LeavesOpen lexed.lines headers ∧
    lexed.anomalies.filter (·.kind.isOpenBlock) = headers.reverse.map Line.leftOpen
  /-- The segment that is never ended is the last one, if no terminator follows it. -/
  openSegment : ∃ opening, LeavesSegment lexed.lines opening ∧
    lexed.anomalies.filter (·.kind.isOpenSegment) = opening.toList.map Line.leftUnended
  /-- Anomalies of lines come first, then the open segment, then the open blocks. -/
  stages : lexed.anomalies.Pairwise fun first second => first.kind.stage ≤ second.kind.stage

section Faithful

theorem Run.isChain {properties : List Text} {level final : Level}
    (run : Run (Line.ReadAt properties) level lines final) :
    lines.IsChain fun line next => next.depth = line.shape.depthBehind line.depth := by
  induction run with
  | nil => exact .nil
  | @cons level final line lines read later ih =>
    cases later with
    | nil => exact .singleton _
    | @cons _ _ next _ readNext =>
      refine .cons_cons ?_ ih
      rw [readNext.depth, read.depth, Level.depth_next]

/-- Closing braces leave no more than the blocks that are open before exactly if none of them
stands at depth zero. -/
theorem Run.residue_le {properties : List Text} {level final : Level}
    (run : Run (Line.ReadAt properties) level lines final) :
    (residue lines).1 ≤ level.depth ↔
      ∀ line ∈ lines, line.shape = .blockClose → line.depth ≠ 0 := by
  induction run with
  | nil => simp [residue]
  | @cons level final line lines read _ ih =>
    rw [forall_mem_cons, ← ih]
    rcases line.shape.bracket_cases with opens | closes | ⟨notOpen, notClose⟩
    · have deeper : (level.next line.shape).depth = level.depth + 1 := by
        obtain ⟨key, name, shape⟩ := Shape.exists_of_opensBlock opens
        rw [shape]
        rfl
      rw [residue_of_opens opens, deeper]
      simp only [Shape.ne_blockClose_of_opens opens, false_implies, true_and]
      split
      next none_ => simp [none_]
      next some_ => omega
    · rw [residue_of_closes closes, closes, read.depth]
      simp only [true_implies, Level.next]
      omega
    · rw [residue_of_plain notOpen notClose, Level.depth_next,
        Shape.depthBehind_of_plain notOpen notClose]
      simp [notClose]

variable (properties : List Text) (text : Text)

/-- The anomalies of a text: those of its lines, the segment it leaves open, and the headers
that its closing braces leave. -/
theorem Lexed.anomalies_ofText : ∃ opening, LeavesSegment (ofText properties text).lines opening ∧
    ((ofText properties text).lines.foldl Nesting.advance {}).segment =
      opening.map Line.openSegment ∧
    (ofText properties text).anomalies = anomaliesOf (ofText properties text).lines opening
      (residue (ofText properties text).lines).2 := by
  obtain ⟨opening, leaves, same⟩ := leavesSegment_foldl (ofText properties text).lines {} rfl
  refine ⟨opening, leaves, same, ?_⟩
  have blocks := Nesting.blocks_foldl {} (ofText properties text).lines
  rw [ofText] at same blocks ⊢
  dsimp only at same blocks ⊢
  rw [anomaliesOf, Nesting.leftovers, same, blocks]
  cases opening <;>
    simp [Line.leftUnended, Line.leftOpen, Line.openSegment, Line.openBlock]

/-- The classification of a text is faithful to it, and its nesting is intact exactly if its
brackets are balanced and its segments ended. -/
theorem Lexed.faithful_ofText : (ofText properties text).Faithful text ∧
    ((Document.ofText properties text).nestingBroken = false ↔
      Balanced (ofText properties text).lines ∧ SegmentsEnd (ofText properties text).lines) := by
  obtain ⟨opening, leaves, left, anomalies⟩ := anomalies_ofText properties text
  have run := run_ofText properties text
  have count : (ofText properties text).lines.length = text.lines.length :=
    Nesting.length_classify properties {} 0 text.lines
  refine ⟨?_, ?_⟩
  · exact
      { numbers := by rw [number_ofText, count]
        texts := Nesting.text_classify properties {} 0 text.lines
        first := by
          generalize (ofText properties text).lines = lines at run
          intro line head
          cases run with
          | nil => cases head
          | cons read _ =>
            cases head
            exact read.depth
        depths := run.isChain
        unmatchedCloses := by rw [anomalies, unmatchedCloses_anomaliesOf]
        malformed := by rw [anomalies, malformed_anomaliesOf]
        openBlocks := ⟨_, leavesOpen_residue _, by rw [anomalies, openBlocks_anomaliesOf]⟩
        openSegment := ⟨opening, leaves, by rw [anomalies, openSegment_anomaliesOf]⟩
        stages := by
          rw [anomalies]
          exact stages_anomaliesOf }
  · have ends : SegmentsEnd (ofText properties text).lines ↔ opening = none := by
      rw [segmentsEnd_iff, left, Option.map_eq_none_iff]
    have balanced : Balanced (ofText properties text).lines ↔
        (∀ line ∈ (ofText properties text).lines, line.shape = .blockClose → line.depth ≠ 0) ∧
          (residue (ofText properties text).lines).2 = [] := by
      rw [balanced_iff, ← run.residue_le, Prod.ext_iff]
      simp
    have broken : (Document.ofText properties text).nestingBroken =
        (ofText properties text).anomalies.any (·.kind.breaksNesting) := rfl
    rw [broken, anomalies, any_breaksNesting_anomaliesOf, balanced, ends, and_assoc,
      and_comm (a := opening = none)]

end Faithful

end LookML
