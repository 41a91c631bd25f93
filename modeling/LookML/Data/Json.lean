import LookML.Data.Value

/-!
# JSON text

Values written as JSON over several lines, indented by two spaces a level, in ASCII
alone.  Empty lists and tables stay on one line.
-/

namespace LookML.Data

open Text

/-- A unit of sixteen bits as an escape. -/
def unitEscape (unit : Nat) : Text :=
  "\\u".toList ++ hex 4 unit

/-- A character of JSON text. -/
def jsonChar (c : Char) : Text :=
  if c = '"' ∨ c = '\\' then ['\\', c]
  else if c = '\n' then "\\n".toList
  else if c = '\r' then "\\r".toList
  else if c = '\t' then "\\t".toList
  else if c = '\x0c' then "\\f".toList
  else if c = '\x08' then "\\b".toList
  else if 0x20 ≤ c.toNat ∧ c.toNat < 0x7F then [c]
  else if c.toNat < 0x10000 then unitEscape c.toNat
  else
    let offset := c.toNat - 0x10000
    unitEscape (0xD800 + offset / 0x400) ++ unitEscape (0xDC00 + offset % 0x400)

def jsonText (text : Text) : Text :=
  ['"'] ++ text.flatMap jsonChar ++ ['"']

/-- Parts between brackets, each on a line of its own. -/
def jsonLines (first last : Char) (depth : Nat) (parts : List Text) : Text :=
  if parts.isEmpty then
    [first, last]
  else
    let start (depth : Nat) : Text := '\n' :: List.replicate (2 * depth) ' '
    [first] ++ joinWith [','] (parts.map fun part => start (depth + 1) ++ part)
      ++ start depth ++ [last]

namespace Value

mutual

/-- A value inside `depth` levels of indentation. -/
def jsonAt (depth : Nat) : Value → Text
  | absent => "null".toList
  | flag value => if value then "true".toList else "false".toList
  | integer value => ofInt value
  | real value => realText value
  | text value => jsonText value
  | moment value => jsonText value.text
  | list members => jsonLines '[' ']' depth (jsonMembers (depth + 1) members)
  | table entries => jsonLines '\x7b' '\x7d' depth (jsonEntries (depth + 1) entries)

def jsonMembers (depth : Nat) : List Value → List Text
  | [] => []
  | member :: members => member.jsonAt depth :: jsonMembers depth members

def jsonEntries (depth : Nat) : List (Text × Value) → List Text
  | [] => []
  | (key, value) :: entries =>
    (jsonText key ++ ": ".toList ++ value.jsonAt depth) :: jsonEntries depth entries

end

def json (value : Value) : Text :=
  value.jsonAt 0

/-- A text or nothing. -/
def ofText? (text : Option Text) : Value :=
  match text with
  | some content => .text content
  | none => absent

/-- A number or nothing. -/
def ofNat? (number : Option Nat) : Value :=
  match number with
  | some n => integer n
  | none => absent

end Value

end LookML.Data
