import LookML.Code
import LookML.Text.Decimal
import LookML.Text.Quoted

/-!
# Classified lines

Every source line is classified once, together with the nesting depth in force
before it.  Problems of the block structure are anomalies, each of them on a
line.
-/

namespace LookML

/-- What a line is, with the parts that can be read from it. -/
inductive Shape where
  | blank
  | comment
  /-- The header of a block that later lines fill.  Parts that cannot be read are
  absent; an anonymous block has the empty name. -/
  | blockOpen (key name : Option Text)
  /-- A block written on one line. -/
  | inlineBlock (key name value : Text)
  | blockClose
  | property (key value : Text)
  /-- The first line of a segment that continues on later lines. -/
  | segmentOpen (key value : Text)
  /-- A segment on one line. -/
  | segmentInline (key value : Text)
  | segmentContent
  | segmentClose
  /-- Anything else, such as the continuation of a list. -/
  | content
  deriving Repr, DecidableEq

namespace Shape

def word : Shape → String
  | blank => "blank"
  | comment => "comment"
  | blockOpen .. => "block_open"
  | inlineBlock .. => "inline_block"
  | blockClose => "block_close"
  | property .. => "property"
  | segmentOpen .. => "sql_open"
  | segmentInline .. => "sql_inline"
  | segmentContent => "sql_content"
  | segmentClose => "sql_close"
  | content => "content"

/-- The block type or property name on a line. -/
def key? : Shape → Option Text
  | blockOpen key _ => key
  | inlineBlock key _ _ | property key _ | segmentOpen key _ | segmentInline key _ => some key
  | blank | comment | blockClose | segmentContent | segmentClose | content => none

def name? : Shape → Option Text
  | blockOpen _ name => name
  | inlineBlock _ name _ => some name
  | _ => none

def value? : Shape → Option Text
  | inlineBlock _ _ value | property _ value | segmentOpen _ value
  | segmentInline _ value => some value
  | _ => none

end Shape

/-- A source line: its index, its text as written, the nesting depth in force
before it, and what it is. -/
structure Line where
  number : Nat
  text : Text
  depth : Nat
  shape : Shape
  deriving Repr, DecidableEq

namespace Line

/-- The line without the blanks around it. -/
def stripped (line : Line) : Text :=
  Text.trim line.text

/-- The depth a line is written at: a closing brace stands one level further
out. -/
def indentDepth (line : Line) : Nat :=
  if line.shape = .blockClose then line.depth - 1 else line.depth

end Line

/-- A block that is still open, with the line it was opened on. -/
structure OpenBlock where
  line : Nat
  key : Option Text
  name : Option Text
  deriving Repr, DecidableEq

namespace OpenBlock

/-- How messages name a block. -/
def label (block : OpenBlock) : Text :=
  let key := block.key.getD "None".toList
  match block.name with
  | none | some [] => key
  | some name => key ++ ": ".toList ++ name

end OpenBlock

/-- What is wrong with the structure of a document. -/
inductive AnomalyKind where
  | unmatchedClose
  | unterminatedBlock (label : Text)
  | unterminatedSegment (property : Text)
  | malformedHeader (code : Text)
  deriving Repr, DecidableEq

/-- A structural problem and the line it concerns. -/
structure Anomaly where
  line : Nat
  kind : AnomalyKind
  deriving Repr, DecidableEq

namespace AnomalyKind

def word : AnomalyKind → String
  | unmatchedClose => "unmatched_close"
  | unterminatedBlock _ => "unterminated_block"
  | unterminatedSegment _ => "unterminated_sql"
  | malformedHeader _ => "malformed_identifier"

/-- Whether the block structure around the anomaly cannot be trusted. -/
def breaksNesting : AnomalyKind → Bool
  | malformedHeader _ => false
  | unmatchedClose | unterminatedBlock _ | unterminatedSegment _ => true

def message : AnomalyKind → Text
  | unmatchedClose => "closing brace without an open block".toList
  | unterminatedBlock label =>
    "block '".toList ++ label ++ "' is never closed".toList
  | unterminatedSegment property =>
    "'".toList ++ property ++ "' is missing its ';;' terminator".toList
  | malformedHeader code => "cannot read block name from ".toList ++ Text.quoted code

end AnomalyKind

namespace Anomaly

def message (anomaly : Anomaly) : Text :=
  anomaly.kind.message

/-- The anomaly with its line, counted from one. -/
def report (anomaly : Anomaly) : Text :=
  "line ".toList ++ Text.ofNat (anomaly.line + 1) ++ ": ".toList ++ anomaly.message

end Anomaly

end LookML
