import LookML.Text.Basic

/-!
# Ranges of code points

A property of characters is a table of lengths: by turns, how many code points in a row lack it
and how many have it, from the code point 0 on.
-/

namespace LookML.Text

/-- Whether a code point lies in one of the ranges that have the property. -/
def inRanges : List Nat → Nat → Bool
  | gap :: length :: ranges, code =>
    if code < gap then false
    else code - gap < length || inRanges ranges (code - gap - length)
  | _, _ => false

end LookML.Text
