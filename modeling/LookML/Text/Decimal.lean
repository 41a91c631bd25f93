import LookML.Text.Basic

/-!
# Decimal text of integers
-/

namespace LookML.Text

/-- The decimal digits of a number. -/
def ofNat (n : Nat) : Text :=
  Nat.toDigits 10 n

/-- The decimal digits of an integer, after a minus sign if it is negative. -/
def ofInt : Int → Text
  | .ofNat n => ofNat n
  | .negSucc n => '-' :: ofNat (n + 1)

/-- The value of a text of ASCII digits. -/
def digitsValue (base : Nat) (digits : Text) : Nat :=
  digits.foldl (fun value c => value * base + digitValue c) 0
where
  /-- The value of one digit, letters counting on from ten. -/
  digitValue (c : Char) : Nat :=
    if c.isDigit then c.toNat - '0'.toNat
    else c.toLower.toNat - 'a'.toNat + 10

/-- A text filled up with a character on its left to a given width. -/
def padLeft (filler : Char) (width : Nat) (text : Text) : Text :=
  List.replicate (width - text.length) filler ++ text

/-- A text filled up with a character on its right to a given width. -/
def padRight (filler : Char) (width : Nat) (text : Text) : Text :=
  text ++ List.replicate (width - text.length) filler

end LookML.Text
