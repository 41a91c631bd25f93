import LookML.Text.Blank
import LookML.Text.Word

/-!
# The code of one line

Recognisers for what stands on a line once the blanks around it are gone:
properties `key: value`, block headers `key: name {`, blocks on one line
`key: name { body }`, closing braces, and the comment after a brace or a
terminator.
-/

namespace LookML.Code

open Text

/-- The mark that ends a segment of SQL or markup. -/
def terminator : Text := [';', ';']

/-- Whether a text ends with the terminator. -/
def endsSegment (text : Text) : Bool :=
  terminator.isSuffixOf text

/-- The text without its terminator and without the blanks around the rest. -/
def stripTerminator (text : Text) : Text :=
  let text := trim text
  trim ((before? terminator text).getD text)

/-- Characters of a block name: word characters, and the signs of dotted,
hyphenated and refinement names. -/
def isNameChar (c : Char) : Bool :=
  isWord c || c == '.' || c == '+' || c == '-'

/-- An identifier at the start of a text, with the rest. -/
def identifier? : Text → Option (Text × Text)
  | [] => none
  | c :: text =>
    if isIdentifierStart c then
      some (c :: text.takeWhile isWord, text.dropWhile isWord)
    else
      none

/-- An identifier and a colon at the start of a text, with the rest. -/
def key? (text : Text) : Option (Text × Text) := do
  let (key, rest) ← identifier? text
  match trimLeft rest with
  | ':' :: rest => some (key, rest)
  | _ => none

/-- A property `key: value`.  Two slashes directly after the colon make a
web address and not a property, and a value lies on one line. -/
def property? (text : Text) : Option (Text × Text) := do
  let (key, rest) ← key? text
  if ['/', '/'].isPrefixOf rest then
    none
  else
    let value := trimLeft rest
    if value.contains '\n' then none else some (key, value)

/-- The beginning `key: name {` of a block: its key, its name, which may be
empty, and what follows the brace. -/
def blockHeader? (text : Text) : Option (Text × Text × Text) := do
  let (key, rest) ← key? text
  let rest := trimLeft rest
  match trimLeft (rest.dropWhile isNameChar) with
  | '{' :: body => some (key, rest.takeWhile isNameChar, body)
  | _ => none

/-- The key and the name of a line that opens a block and does nothing else. -/
def blockOpen? (text : Text) : Option (Text × Text) := do
  let (key, name, body) ← blockHeader? text
  if body.isEmpty then some (key, name) else none

/-- Whether a text is blank but for at most one terminator at its end. -/
def isBlockEnd (text : Text) : Bool :=
  let rest := trimLeft text
  rest.isEmpty || rest == terminator

/-- The key, the name and the body of a block written on one line. -/
def inlineBlock? (text : Text) : Option (Text × Text × Text) := do
  let (key, name, rest) ← blockHeader? text
  let (body, tail) ← cutLast? ['}'] rest
  if isBlockEnd tail && !body.contains '\n' then some (key, name, trim body) else none

/-- Whether a text is a closing brace, perhaps with a terminator. -/
def isBlockClose : Text → Bool
  | '}' :: tail => isBlockEnd tail
  | _ => false

/-- The characters that delimit string literals. -/
def isQuote (c : Char) : Bool :=
  c == '"' || c == '\''

/-- The comment at the start of a text, behind at least one blank.  A comment
holds no quotes: a mark before one may stand in a literal. -/
def commentAfterBlanks? (text : Text) : Option Text :=
  let rest := trimLeft text
  if rest.length < text.length ∧ rest.head? = some '#' ∧ !rest.any isQuote then
    some rest
  else
    none

/-- The text before the first comment that runs to the end, and the comment. -/
def cutComment? : Text → Option (Text × Text)
  | [] => none
  | c :: text =>
    match commentAfterBlanks? (c :: text) with
    | some comment => some ([], comment)
    | none => (cutComment? text).map fun (code, comment) => (c :: code, comment)

/-- Whether a comment can follow a text: it ends in a brace or a terminator. -/
def admitsComment (code : Text) : Bool :=
  ['{'].isSuffixOf code || ['}'].isSuffixOf code || endsSegment code

/-- A text split into its code and the comment after a brace or terminator. -/
def splitComment (text : Text) : Text × Option Text :=
  match cutComment? text with
  | some (code, comment) => if admitsComment code then (code, some comment) else (text, none)
  | none => (text, none)

/-- The text inside matching quotes, or the text itself. -/
def unquote (text : Text) : Text :=
  match text with
  | quote :: rest =>
    if isQuote quote && rest.getLast? == some quote then rest.dropLast else text
  | [] => []

end LookML.Code
