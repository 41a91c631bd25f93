import LookML.Text.Quoted

/-!
# Faults of TOML documents

Why a document is refused, and where reading stopped.
-/

namespace LookML.Data.Toml

open Text

/-- A key as the path through the tables that it names. -/
abbrev Key := List Text

/-- Why a document is refused. -/
inductive Cause where
  | invalidStatement
  | expectedLineEnd
  | invalidKeyStart
  | expectedEquals
  | invalidValue
  | invalidDate
  | expected (mark : Text)
  | unexpectedCharacter (c : Char)
  | illegalCharacter (c : Char)
  | unterminatedText
  | unescapedBackslash
  | invalidHex
  | notScalar
  | unclosedArray
  | unclosedTable
  | expectedTableEnd
  | expectedArrayEnd
  | duplicateKey (key : Text)
  | overwritten
  | declaredTwice (key : Key)
  | immutable (key : Key)
  | redefined (key : Key)
  /-- A decimal integer with too many digits to be read at all. -/
  | oversizedInteger
  deriving Repr, DecidableEq

/-- A key in parentheses; a single part is followed by a comma. -/
def keyText (key : Key) : Text :=
  match key with
  | [part] => ['('] ++ quoted part ++ [',', ')']
  | parts => ['('] ++ joinWith ", ".toList (parts.map quoted) ++ [')']

namespace Cause

def message : Cause → Text
  | invalidStatement => "Invalid statement".toList
  | expectedLineEnd => "Expected newline or end of document after a statement".toList
  | invalidKeyStart => "Invalid initial character for a key part".toList
  | expectedEquals => "Expected '=' after a key in a key/value pair".toList
  | invalidValue => "Invalid value".toList
  | invalidDate => "Invalid date or datetime".toList
  | expected mark => "Expected ".toList ++ quoted mark
  | unexpectedCharacter c => "Found invalid character ".toList ++ quoted [c]
  | illegalCharacter c => "Illegal character ".toList ++ quoted [c]
  | unterminatedText => "Unterminated string".toList
  | unescapedBackslash => "Unescaped '\\' in a string".toList
  | invalidHex => "Invalid hex value".toList
  | notScalar => "Escaped character is not a Unicode scalar value".toList
  | unclosedArray => "Unclosed array".toList
  | unclosedTable => "Unclosed inline table".toList
  | expectedTableEnd => "Expected ']' at the end of a table declaration".toList
  | expectedArrayEnd => "Expected ']]' at the end of an array declaration".toList
  | duplicateKey key => "Duplicate inline table key ".toList ++ quoted key
  | overwritten => "Cannot overwrite a value".toList
  | declaredTwice key => "Cannot declare ".toList ++ keyText key ++ " twice".toList
  | immutable key => "Cannot mutate immutable namespace ".toList ++ keyText key
  | redefined key => "Cannot redefine namespace ".toList ++ keyText key
  | oversizedInteger => "Integer with too many digits".toList

end Cause

/-- A cause and the text that was left when reading stopped. -/
structure Stop where
  cause : Cause
  rest : Text
  deriving Repr, DecidableEq

/-- Where reading stopped: line and column, counted from one, unless the document
had ended. -/
structure Fault where
  cause : Cause
  place : Option (Nat × Nat)
  deriving Repr, DecidableEq

namespace Fault

/-- The fault of a document that reading stopped in. -/
def ofStop (document : Text) (stop : Stop) : Fault where
  cause := stop.cause
  place :=
    if stop.rest.isEmpty then
      none
    else
      let read := document.take (document.length - stop.rest.length)
      let column := (read.reverse.takeWhile (· ≠ '\n')).length + 1
      some (read.count '\n' + 1, column)

def message (fault : Fault) : Text :=
  fault.cause.message ++
    match fault.place with
    | some (line, column) =>
      " (at line ".toList ++ ofNat line ++ ", column ".toList ++ ofNat column ++ [')']
    | none => " (at end of document)".toList

end Fault

end LookML.Data.Toml
