import LookML.Text.Basic

/-!
# Blanks

The blank characters that separate words: ASCII white space, the information
separators and the space characters of Unicode.
-/

namespace LookML.Text

/-- White space, line breaks included. -/
def isBlank (c : Char) : Bool :=
  let code := c.toNat
  (0x09 ≤ code && code ≤ 0x0D) || (0x1C ≤ code && code ≤ 0x20) || code == 0x85
    || code == 0xA0 || code == 0x1680 || (0x2000 ≤ code && code ≤ 0x200A)
    || code == 0x2028 || code == 0x2029 || code == 0x202F || code == 0x205F
    || code == 0x3000

/-- The text without the blanks it starts with. -/
def trimLeft (text : Text) : Text :=
  text.dropWhile isBlank

/-- The text without the blanks it ends with. -/
def trimRight (text : Text) : Text :=
  (text.reverse.dropWhile isBlank).reverse

/-- The text without the blanks around it. -/
def trim (text : Text) : Text :=
  trimRight (trimLeft text)

def allBlank (text : Text) : Bool :=
  text.all isBlank

end LookML.Text
