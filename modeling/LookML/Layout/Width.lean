import LookML.Layout

/-!
# Widths of indentations

The width of an indentation can be any number, but a machine counts and stores only so many
characters.  Layouts are functions on all settings; here they are given only where the machine
can write their indentations.
-/

namespace LookML

open Text

/-- Why an indentation cannot be written: its spaces cannot be counted, or cannot be
stored. -/
inductive WidthFault where
  | uncountable
  | unstorable
  deriving Repr, DecidableEq

/-- The lengths that texts stay below on a machine, for it to count or to store them. -/
structure Machine where
  countable : Nat
  storable : Nat

/-- The machine at hand.  Lengths are signed numbers of 64 bits; the room for texts is a
property of the machine alone, on which no layout depends. -/
def Machine.host : Machine where
  countable := Nat.pow 2 63
  storable := Nat.pow 2 36

namespace FormatSettings

/-- What keeps a machine from writing one level of indentation. -/
def widthFault? (machine : Machine) (settings : FormatSettings) : Option WidthFault :=
  if !settings.useSpaces then none
  else if machine.countable ≤ settings.indentWidth then some .uncountable
  else if machine.storable ≤ settings.indentWidth then some .unstorable
  else none

/-- A result that takes an indentation, or the reason why there is none. -/
def indented {α : Type} (settings : FormatSettings) (result : Unit → α) : Except WidthFault α :=
  match settings.widthFault? .host with
  | some fault => .error fault
  | none => .ok (result ())

/-- Whether a layout indents some line of a text: all but empty lines, comments between
declarations and content that is not understood. -/
def indentsSome (settings : FormatSettings) (text : Text) : Bool :=
  (Lexed.ofText settings.segmentProperties text).lines.any fun line =>
    match line.shape with
    | .blank | .comment | .content => false
    | _ => true

/-- Whether a layout line by line indents some line of a text. -/
def indentsSomeLine (settings : FormatSettings) (text : Text) : Bool :=
  (Lexed.ofText settings.segmentProperties text).lines.any fun line =>
    match line.shape with
    | .segmentContent | .segmentClose | .content | .blank => false
    | _ => true

/-- One level of indentation that can be written. -/
def writtenUnit (settings : FormatSettings) : Except WidthFault Text :=
  settings.indented fun _ => settings.indentUnit

/-- The indentation of a depth that can be written. -/
def writtenIndent (settings : FormatSettings) (depth : Nat) : Except WidthFault Text :=
  settings.indented fun _ => settings.indent depth

/-- A text formatted, if its indentations can be written. -/
def writtenText (settings : FormatSettings) (text : Text) : Except WidthFault Text :=
  if settings.indentsSome text then settings.indented fun _ => settings.formatText text
  else .ok (settings.formatText text)

/-- A text laid out line by line, if its indentations can be written. -/
def writtenConservatively (settings : FormatSettings) (text : Text) : Except WidthFault Text :=
  if settings.indentsSomeLine text then
    settings.indented fun _ => settings.formatConservative text
  else
    .ok (settings.formatConservative text)

/-- The lines of a text laid out, if their indentations can be written. -/
def writtenLines (settings : FormatSettings) (text : Text) : Except WidthFault (List Text) :=
  let lines := fun () => settings.document (.ofText settings.segmentProperties text)
  if settings.indentsSome text then settings.indented lines else .ok (lines ())

/-- The edits that format a text, if its indentations can be written. -/
def writtenEdits (settings : FormatSettings) (text : Text) : Except WidthFault (List Edit) :=
  if settings.indentsSome text then
    settings.indented fun _ => (settings.formatEdit? text).toList
  else
    .ok (settings.formatEdit? text).toList

end FormatSettings

end LookML
