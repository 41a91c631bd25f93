import LookML.Text.Scan

/-!
# Escape sequences

A terminal takes an escape character, a bracket, numbers and a letter for a command.  Lines
that do not go to a terminal lose such sequences.
-/

namespace LookML.Display

open Text

/-- The length of the escape sequence that a text begins with. -/
def escapeAt? : Text → Option Nat
  | '\x1b' :: '[' :: text =>
    let numbers := text.takeWhile fun c => c.isDigit || c == ';' || c == '?'
    if (text.drop numbers.length).head?.any Char.isAlpha then some (numbers.length + 3)
    else none
  | _ => none

/-- The text without escape sequences. -/
def withoutEscapes (text : Text) : Text :=
  substitute (fun _ rest => (escapeAt? rest).map fun length => ([], length)) text

end LookML.Display
