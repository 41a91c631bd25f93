import LookML.Line
import LookML.Text.Lines

/-!
# Classifying lines

Lines are read from first to last with two pieces of state: the blocks that are
open and the segment that is open, if any.  Inside a segment nothing but its
terminator has a meaning, so braces there open and close no blocks.  No text is
refused: what does not fit the structure is reported as an anomaly.
-/

namespace LookML

open Text Code

namespace Shape

/-- What the code of a line opens when it ends in an opening brace. -/
def ofBlockOpener (code : Text) : Shape :=
  match blockOpen? code with
  | some (key, name) => .blockOpen (some key) (some name)
  | none => .blockOpen ((Code.key? code).map (·.1)) none

/-- What a segment property is: closed on its own line or left open. -/
def ofSegment (key value : Text) : Shape :=
  if endsSegment value then .segmentInline key value else .segmentOpen key value

/-- The block that the code of a line opens or holds. -/
def ofBlock? (code : Text) : Option Shape :=
  if ['{'].isSuffixOf code then
    some (ofBlockOpener code)
  else
    (inlineBlock? code).map fun (key, name, body) => .inlineBlock key name body

/-- What a line outside every segment is.  Segment properties come before
blocks, since their values may hold braces. -/
def read (segmentProperties : List Text) (text : Text) : Shape :=
  let stripped := trim text
  let code := (splitComment stripped).1
  if stripped.isEmpty then .blank
  else if ['#'].isPrefixOf stripped then .comment
  else if isBlockClose code then .blockClose
  else
    match property? stripped with
    | some (key, value) =>
      if segmentProperties.contains key then ofSegment key value
      else (ofBlock? code).getD (.property key value)
    | none => (ofBlock? code).getD .content

/-- What a line inside a segment is. -/
def readInSegment (text : Text) : Shape :=
  if endsSegment (trim text) then .segmentClose else .segmentContent

end Shape

/-- A segment that is still open. -/
structure OpenSegment where
  line : Nat
  property : Text
  deriving Repr, DecidableEq

/-- What is open between two lines: blocks, innermost first, and a segment. -/
structure Nesting where
  blocks : List OpenBlock := []
  segment : Option OpenSegment := none
  deriving Repr, DecidableEq

namespace Nesting

def depth (nesting : Nesting) : Nat :=
  nesting.blocks.length

/-- What the next line is. -/
def shape (segmentProperties : List Text) (nesting : Nesting) (text : Text) : Shape :=
  match nesting.segment with
  | some _ => .readInSegment text
  | none => .read segmentProperties text

def line (segmentProperties : List Text) (nesting : Nesting) (number : Nat)
    (text : Text) : Line where
  number := number
  text := text
  depth := nesting.depth
  shape := nesting.shape segmentProperties text

def advance (nesting : Nesting) (line : Line) : Nesting :=
  match line.shape with
  | .blockOpen key name =>
    { nesting with blocks := ⟨line.number, key, name⟩ :: nesting.blocks }
  | .blockClose => { nesting with blocks := nesting.blocks.tail }
  | .segmentOpen key _ => { nesting with segment := some ⟨line.number, key⟩ }
  | .segmentClose => { nesting with segment := none }
  | .blank | .comment | .inlineBlock .. | .property .. | .segmentInline ..
  | .segmentContent | .content => nesting

/-- The anomalies of what is open at the end of the text: the segment first, then
the blocks from the innermost outwards. -/
def leftovers (nesting : Nesting) : List Anomaly :=
  (nesting.segment.toList.map fun segment =>
      ⟨segment.line, .unterminatedSegment segment.property⟩)
    ++ nesting.blocks.map fun block => ⟨block.line, .unterminatedBlock block.label⟩

/-- Classify lines from a state on, numbering them from `number`. -/
def classify (segmentProperties : List Text) :
    Nesting → Nat → List Text → List Line
  | _, _, [] => []
  | nesting, number, text :: texts =>
    let line := nesting.line segmentProperties number text
    line :: classify segmentProperties (nesting.advance line) (number + 1) texts

end Nesting

namespace Line

/-- The anomaly a line shows by itself: a closing brace where no block is open,
or a block header that cannot be read. -/
def anomaly? (line : Line) : Option Anomaly :=
  match line.shape with
  | .blockClose => if line.depth = 0 then some ⟨line.number, .unmatchedClose⟩ else none
  | .blockOpen _ none =>
    some ⟨line.number, .malformedHeader (splitComment line.stripped).1⟩
  | _ => none

end Line

/-- The lines of a text with the anomalies found, in the order of detection. -/
structure Lexed where
  lines : List Line
  anomalies : List Anomaly
  deriving Repr, DecidableEq

namespace Lexed

/-- Classify the lines of a text, given the properties that open segments. -/
def ofText (segmentProperties : List Text) (text : Text) : Lexed :=
  let lines := ({} : Nesting).classify segmentProperties 0 text.lines
  { lines
    anomalies := lines.filterMap Line.anomaly? ++ (lines.foldl Nesting.advance {}).leftovers }

end Lexed

end LookML
