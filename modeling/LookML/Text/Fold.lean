import LookML.Text.Ranges
import LookML.Text.Upper

/-!
# Case folding

The full case folding, under which two texts that differ only in case become
equal.  A character can become several, as the sharp s becomes `ss`.
-/

namespace LookML.Text

/-- Cherokee letters, whose case folding is to the upper case. -/
def isCherokee (c : Char) : Bool :=
  inRanges [5024, 94, 38770, 80] c.toNat

/-- The folded form of a character: the lower case of its upper case, except for the dotless i,
the capital sharp s and the Cherokee letters. -/
def foldChar (c : Char) : Text :=
  if c.toNat < 0x80 then [c.toLower]
  else if c = 'ı' then [c]
  else if c = 'ẞ' then ['s', 's']
  else if isCherokee c then upperChar c
  else (upperChar c).flatMap lowerChar

/-- The text with every character replaced by its folded form. -/
def fold (text : Text) : Text :=
  text.flatMap foldChar

end LookML.Text
