import LookML.Text.Basic

/-!
# Matching without regard to case

Words of the language are ASCII.  A character matches a letter of such a word
when it is that letter in either case, or one of the few other characters that
share its case forms: the long s, the Kelvin sign, and the dotted capital and
dotless small i.
-/

namespace LookML.Text

/-- Whether a character matches an ASCII letter in lower case, whatever its own
case. -/
def matchesLetter (letter c : Char) : Bool :=
  c.toLower == letter
    || (letter == 's' && c == 'ſ')
    || (letter == 'k' && c == 'K')
    || (letter == 'i' && (c == 'İ' || c == 'ı'))

/-- What follows a word, given in lower case, in a text that starts with it in
any case. -/
def afterWord? : Text → Text → Option Text
  | [], text => some text
  | _ :: _, [] => none
  | letter :: word, c :: text =>
    if matchesLetter letter c then afterWord? word text else none

/-- Whether a text is the given lower-case ASCII word up to the case of its
ASCII letters. -/
def sameAsciiWord (word text : Text) : Bool :=
  text.map Char.toLower == word

end LookML.Text
