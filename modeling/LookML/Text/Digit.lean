import LookML.Text.Basic

/-!
# Decimal digits

The decimal digits of every script.
-/

namespace LookML.Text

/-- The zeros beyond ASCII.  The other digits of a script follow its zero. -/
def digitZeros : List Nat :=
  [1632, 1776, 1984, 2406, 2534, 2662, 2790, 2918, 3046, 3174, 3302, 3430, 3558, 3664, 3792, 3872,
   4160, 4240, 6112, 6160, 6470, 6608, 6784, 6800, 6992, 7088, 7232, 7248, 42528, 43216, 43264,
   43472, 43504, 43600, 44016, 65296, 66720, 68912, 69734, 69872, 69942, 70096, 70384, 70736, 70864,
   71248, 71360, 71472, 71904, 72016, 72784, 73040, 73120, 92768, 92864, 93008, 120782, 120792,
   120802, 120812, 120822, 123200, 123632, 125264, 130032]

/-- The zero of the script that a digit beyond ASCII is of. -/
def digitZero? (c : Char) : Option Nat :=
  digitZeros.find? fun first => first ≤ c.toNat && c.toNat < first + 10

/-- Decimal digits of any script. -/
def isDecimalDigit (c : Char) : Bool :=
  if c.toNat < 0x80 then c.isDigit else (digitZero? c).isSome

end LookML.Text
