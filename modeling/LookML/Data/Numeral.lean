import LookML.Text.Blank
import LookML.Text.Decimal

/-!
# Numerals

A plain numeral is an optional minus and digits that begin with a zero only if there
is no other digit.  A numeral that people wrote may also have white space around
it, a plus sign, leading zeros, a fraction of zeros, and underscores between its digits; such
a numeral is made plain before it is read.  A minus may also stand behind leading zeros.
-/

namespace LookML.Data

open Text

/-- Why a text is not read as a numeral. -/
inductive NumeralFault where
  | malformed
  | oversized
  deriving Repr, DecidableEq

/-- The longest plain numeral that is read, its sign included. -/
def maxNumeralLength : Nat := 4300

/-- The number that plain digits stand for.  What stands before them, a sign or
nothing, counts for their length. -/
def plainDigits (sign text : Text) : Except NumeralFault Nat :=
  let digits := text.takeWhile Char.isDigit
  if digits.head? = some '0' then
    if text = ['0'] then .ok 0 else .error .malformed
  else if maxNumeralLength < sign.length + digits.length then
    .error .oversized
  else if digits.isEmpty || digits.length < text.length then
    .error .malformed
  else
    .ok (digitsValue 10 digits)

/-- The integer that a plain numeral stands for. -/
def plainNumeral : Text → Except NumeralFault Int
  | '-' :: text => (plainDigits ['-'] text).map fun value => -(value : Int)
  | text => (plainDigits [] text).map fun value => (value : Int)

/-- White space around numerals, which does not include information separators. -/
def isNumeralSpace (c : Char) : Bool :=
  isBlank c && !(0x1C ≤ c.toNat && c.toNat ≤ 0x1F)

def withoutNumeralSpace (text : Text) : Text :=
  ((text.dropWhile isNumeralSpace).reverse.dropWhile isNumeralSpace).reverse

/-- A text without the plus sign it begins with, unless a minus follows. -/
def withoutPlus : Text → Text
  | '+' :: '-' :: text => '+' :: '-' :: text
  | '+' :: text => text
  | text => text

/-- What follows zeros and the underscores between them.  One character is kept
before a point and at the end. -/
def afterZeros? (last : Char) : Text → Option Text
  | [] => some [last]
  | c :: text =>
    if c == '0' || c == '_' then afterZeros? c text
    else if c == '-' || c.isDigit then some (c :: text)
    else if c == '.' then some (last :: c :: text)
    else none

/-- A numeral without the zeros it begins with. -/
def withoutLeadingZeros? : Text → Option Text
  | [] => none
  | c :: text =>
    if c == '0' then afterZeros? c text
    else if c == '-' || c.isDigit then some (c :: text)
    else none

def withoutZeroFraction (text : Text) : Text :=
  let whole := text.takeWhile (· ≠ '.')
  let fraction := text.drop (whole.length + 1)
  if !fraction.isEmpty && fraction.all (· == '0') then whole else text

/-- Whether underscores stand only between other characters, one at a time. -/
def separatesSingly : Text → Bool
  | [] => true
  | '_' :: _ => false
  | [_] => true
  | _ :: '_' :: text => !text.isEmpty && separatesSingly text
  | _ :: text => separatesSingly text

/-- A numeral without underscores, where these only separate. -/
def withoutSeparators (text : Text) : Text :=
  if separatesSingly text then text.filter (· ≠ '_') else text

/-- A numeral with its minus, if it has one, but without leading zeros. -/
def signedDigits? : Text → Option Text
  | '-' :: text => (withoutLeadingZeros? text).map ('-' :: ·)
  | text => withoutLeadingZeros? text

def plainForm? (text : Text) : Option Text :=
  (signedDigits? (withoutPlus (withoutNumeralSpace text))).map fun text =>
    withoutSeparators (withoutZeroFraction text)

/-- The integer that a numeral stands for, plain or not. -/
def numeral (text : Text) : Except NumeralFault Int :=
  match plainNumeral text, plainForm? text with
  | .error .malformed, some plain => plainNumeral plain
  | result, _ => result

end LookML.Data
