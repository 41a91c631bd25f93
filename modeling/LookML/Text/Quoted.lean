import LookML.Text.Decimal
import LookML.Text.Printable

/-!
# Quoted text

Messages show a text between quotes on one line.  Single quotes are used unless
the text holds one and no double quote; the quote in use, backslashes and
characters that are not printable are escaped.
-/

namespace LookML.Text

/-- A code point in lower-case hexadecimal with at least `width` digits. -/
def hex (width code : Nat) : Text :=
  padLeft '0' width (Nat.toDigits 16 code)

/-- A character inside quotes. -/
def quoteChar (quote c : Char) : Text :=
  if c = quote ∨ c = '\\' then ['\\', c]
  else if c = '\n' then "\\n".toList
  else if c = '\r' then "\\r".toList
  else if c = '\t' then "\\t".toList
  else if isPrintable c then [c]
  else if c.toNat < 0x100 then "\\x".toList ++ hex 2 c.toNat
  else if c.toNat < 0x10000 then "\\u".toList ++ hex 4 c.toNat
  else "\\U".toList ++ hex 8 c.toNat

/-- A text between quotes. -/
def quoted (text : Text) : Text :=
  let quote := if text.contains '\'' && !text.contains '"' then '"' else '\''
  [quote] ++ text.flatMap (quoteChar quote) ++ [quote]

end LookML.Text
