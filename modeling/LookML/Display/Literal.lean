import LookML.Data.Numeral
import LookML.Text.Word

/-!
# Literals

The parameters of an action tag are literals: numbers, quoted texts, the constants
`True`, `False` and `None`, and tuples, sets and tables of them.  Only whether a text is
a literal matters here, not its value.
-/

namespace LookML.Display

open Text Data

/-- What a literal is, as far as it decides where the literal can stand.  A
collection may or may not be a member of a set. -/
inductive LiteralKind where
  | real
  | signedReal
  | imaginary
  | sum
  | text
  | bytes
  | constant
  | collection (fixed : Bool)
  deriving Repr, DecidableEq

namespace LiteralKind

/-- Whether a literal can be a member of a set or the key of a table. -/
def isFixed : LiteralKind → Bool
  | collection fixed => fixed
  | _ => true

/-- A literal behind a sign. -/
def signed? : LiteralKind → Option LiteralKind
  | real => some signedReal
  | imaginary => some sum
  | _ => none

/-- A literal with another one added to it or taken from it: only a real number and
an imaginary one make a literal. -/
def plus? : LiteralKind → LiteralKind → Option LiteralKind
  | real, imaginary => some sum
  | signedReal, imaginary => some sum
  | _, _ => none

end LiteralKind

/-- What follows blanks and a comment. -/
def skipSpace (text : Text) : Text :=
  match text.dropWhile fun c => c == ' ' || c == '\t' || c == '\x0c' with
  | '#' :: _ => []
  | rest => rest

/-- Whether a number can end before a text. -/
def endsWord (text : Text) : Bool :=
  !text.head?.any isWord

def digitRun (isDigit : Char → Bool) (text : Text) : Text × Text :=
  let run := text.takeWhile fun c => isDigit c || c == '_'
  (run, text.drop run.length)

/-- Whether digits are well separated. -/
def isDigitPart (run : Text) : Bool :=
  !run.isEmpty && separatesSingly run

/-- The rest behind a whole number in another base than ten. -/
def basedNumber? : Text → Option Text
  | '0' :: mark :: text =>
    let isDigit? : Option (Char → Bool) :=
      match mark.toLower with
      | 'x' => some fun c => c.isDigit || ('a' ≤ c.toLower && c.toLower ≤ 'f')
      | 'o' => some fun c => '0' ≤ c && c ≤ '7'
      | 'b' => some fun c => c == '0' || c == '1'
      | _ => none
    isDigit?.bind fun isDigit =>
      let (run, rest) := digitRun isDigit ((after? ['_'] text).getD text)
      if isDigitPart run && endsWord rest then some rest else none
  | _ => none

/-- The rest behind an exponent, or the text itself if it begins with none. -/
def afterExponent? : Text → Option Text
  | c :: text =>
    if c.toLower == 'e' then
      let unsigned :=
        match text with
        | '+' :: rest => rest
        | '-' :: rest => rest
        | rest => rest
      let (run, rest) := digitRun Char.isDigit unsigned
      if isDigitPart run then some rest else none
    else
      some (c :: text)
  | [] => some []

/-- A decimal number, and the rest.  A whole number has no zeros before its other
digits. -/
def decimalNumber? (text : Text) : Option (LiteralKind × Text) := do
  let (whole, rest) := digitRun Char.isDigit text
  let (point, fraction, rest) :=
    match rest with
    | '.' :: rest =>
      let (fraction, rest) := digitRun Char.isDigit rest
      (true, fraction, rest)
    | rest => (false, [], rest)
  let mantissa :=
    (whole.isEmpty || isDigitPart whole) && (fraction.isEmpty || isDigitPart fraction)
      && !(whole.isEmpty && fraction.isEmpty)
  let behind ← afterExponent? rest
  if !mantissa then
    none
  else
    match behind with
    | 'j' :: rest => if endsWord rest then some (.imaginary, rest) else none
    | 'J' :: rest => if endsWord rest then some (.imaginary, rest) else none
    | rest' =>
      let digits := whole.filter (· ≠ '_')
      let isWhole := !point && rest'.length = rest.length
      let plain := digits.head? ≠ some '0' || digits.all (· == '0')
      if endsWord rest' && (!isWhole || (plain && digits.length ≤ maxNumeralLength)) then
        some (.real, rest')
      else
        none

def number? (text : Text) : Option (LiteralKind × Text) :=
  match basedNumber? text with
  | some rest => some (.real, rest)
  | none => decimalNumber? text

/-- The rest behind hexadecimal digits of a given number and limit. -/
def hexDigits? (count limit : Nat) (text : Text) : Option Text :=
  let digits := text.take count
  if digits.length = count
      && digits.all (fun c => c.isDigit || ('a' ≤ c.toLower && c.toLower ≤ 'f'))
      && digitsValue 16 digits ≤ limit then
    some (text.drop count)
  else
    none

/-- The rest behind an escape whose backslash is gone. -/
def afterEscape? (kind : LiteralKind) : Text → Option Text
  | [] => none
  | 'x' :: text => hexDigits? 2 0xFF text
  | c :: text =>
    if kind = .text then
      match c with
      | 'u' => hexDigits? 4 0xFFFF text
      | 'U' => hexDigits? 8 0x10FFFF text
      | 'N' => none
      | _ => some text
    else
      some text

/-- The rest behind the closing quotes of a text. -/
def afterQuotes? (raw : Bool) (kind : LiteralKind) (quotes : Text) : Nat → Text → Option Text
  | 0, _ => none
  | fuel + 1, text =>
    match after? quotes text, text with
    | some rest, _ => some rest
    | none, '\\' :: rest =>
      if raw then afterQuotes? raw kind quotes fuel (rest.drop 1)
      else (afterEscape? kind rest).bind (afterQuotes? raw kind quotes fuel)
    | none, c :: rest =>
      if kind = .bytes && 0x80 ≤ c.toNat then none
      else afterQuotes? raw kind quotes fuel rest
    | none, [] => none

/-- The kind of a quoted text by the letters before its quotes, and whether it is
raw. -/
def quotedKind? (letters : Text) : Option (LiteralKind × Bool) :=
  let lead := letters.map Char.toLower
  if lead = [] || lead = ['u'] then some (.text, false)
  else if lead = ['r'] then some (.text, true)
  else if lead = ['b'] then some (.bytes, false)
  else if lead = ['b', 'r'] || lead = ['r', 'b'] then some (.bytes, true)
  else none

/-- A quoted text with the letters before it, and the rest. -/
def quoted? (text : Text) : Option (LiteralKind × Text) := do
  let letters := text.takeWhile Char.isAlpha
  let quote ← (text.drop letters.length).head?
  if quote == '\'' || quote == '"' then
    let (kind, raw) ← quotedKind? letters
    let text := text.drop letters.length
    let quotes := if [quote, quote, quote].isPrefixOf text then [quote, quote, quote] else [quote]
    let rest ← afterQuotes? raw kind quotes (text.length + 1) (text.drop quotes.length)
    some (kind, rest)
  else
    none

/-- Quoted texts of one kind, one behind another, and the rest. -/
def quotedTexts? : Nat → Text → Option (LiteralKind × Text)
  | 0, _ => none
  | fuel + 1, text => do
      let (kind, rest) ← quoted? text
      let next := skipSpace rest
      let quote := (next.drop (next.takeWhile Char.isAlpha).length).head?
      if quote == some '\'' || quote == some '"' then
        let (other, rest) ← quotedTexts? fuel next
        if other = kind then some (kind, rest) else none
      else
        some (kind, rest)

def constant? (text : Text) : Option (LiteralKind × Text) :=
  let word := text.takeWhile isWord
  let rest := text.drop word.length
  if ["True".toList, "False".toList, "None".toList].contains word then some (.constant, rest)
  else if word = "set".toList then do
    let inner ← after? ['('] (skipSpace rest)
    let rest ← after? [')'] (skipSpace inner)
    some (.collection false, rest)
  else
    none

mutual

/-- A literal that is no sum and has no sign, and the rest. -/
def primary? : Nat → Text → Option (LiteralKind × Text)
  | 0, _ => none
  | fuel + 1, text =>
    match skipSpace text with
    | '(' :: rest => do
        let (kinds, comma, rest) ← members? fuel (some ')') rest
        match kinds, comma with
        | [kind], false => some (kind, rest)
        | kinds, _ => some (.collection (kinds.all LiteralKind.isFixed), rest)
    | '\x7b' :: rest => braces? fuel true rest
    | '.' :: '.' :: '.' :: rest => some (.constant, rest)
    | rest =>
      ((quotedTexts? (rest.length + 1) rest).or (number? rest)).or (constant? rest)

def literal? : Nat → Text → Option (LiteralKind × Text)
  | 0, _ => none
  | fuel + 1, text => do
      let (kind, rest) ←
        match skipSpace text with
        | '+' :: rest => signed? fuel rest
        | '-' :: rest => signed? fuel rest
        | rest => primary? fuel rest
      match skipSpace rest with
      | '+' :: rest => added? fuel kind rest
      | '-' :: rest => added? fuel kind rest
      | rest => some (kind, rest)

def signed? : Nat → Text → Option (LiteralKind × Text)
  | 0, _ => none
  | fuel + 1, text => do
      let (kind, rest) ← primary? fuel text
      some (← kind.signed?, rest)

/-- The sum of a literal and the one that follows, and the rest. -/
def added? : Nat → LiteralKind → Text → Option (LiteralKind × Text)
  | 0, _, _ => none
  | fuel + 1, kind, text => do
      let (other, rest) ← primary? fuel text
      some (← kind.plus? other, rest)

/-- Literals between commas up to a closing character or the end, whether a comma
follows the last of them, and the rest. -/
def members? : Nat → Option Char → Text → Option (List LiteralKind × Bool × Text)
  | 0, _, _ => none
  | fuel + 1, close, text =>
    match skipSpace text, close with
    | [], none => some ([], true, [])
    | [], some _ => none
    | c :: rest, _ =>
      if some c = close then some ([], true, rest)
      else do
        let (kind, rest) ← literal? fuel (c :: rest)
        match skipSpace rest, close with
        | ',' :: rest, _ => do
            let (kinds, _, rest) ← members? fuel close rest
            some (kind :: kinds, true, rest)
        | [], none => some ([kind], false, [])
        | c :: rest, _ => if some c = close then some ([kind], false, rest) else none
        | [], some _ => none

/-- A set or a table behind its opening brace, and the rest.  Without members it is a
table. -/
def braces? : Nat → Bool → Text → Option (LiteralKind × Text)
  | 0, _, _ => none
  | fuel + 1, first, text => do
      match skipSpace text with
      | '\x7d' :: rest => some (.collection false, rest)
      | text => do
          let (key, rest) ← literal? fuel text
          if !key.isFixed then
            none
          match skipSpace rest with
          | ':' :: rest =>
            let (_, rest) ← literal? fuel rest
            entries? fuel rest
          | rest => if first then elements? fuel rest else none

/-- The rest of a table behind an entry. -/
def entries? : Nat → Text → Option (LiteralKind × Text)
  | 0, _ => none
  | fuel + 1, text =>
    match skipSpace text with
    | ',' :: rest => braces? fuel false rest
    | '\x7d' :: rest => some (.collection false, rest)
    | _ => none

/-- The rest of a set behind a member. -/
def elements? : Nat → Text → Option (LiteralKind × Text)
  | 0, _ => none
  | fuel + 1, text =>
    match skipSpace text with
    | ',' :: rest => do
        let (kinds, _, rest) ← members? fuel (some '\x7d') rest
        if kinds.all LiteralKind.isFixed then some (.collection false, rest) else none
    | '\x7d' :: rest => some (.collection false, rest)
    | _ => none

end

/-- Whether a text is a literal, or several with commas between them. -/
def isLiteral (text : Text) : Bool :=
  match members? (4 * text.length + 4) none text with
  | some (kinds, _, _) => !kinds.isEmpty
  | none => false

end LookML.Display
