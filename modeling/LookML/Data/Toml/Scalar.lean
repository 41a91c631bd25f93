import LookML.Data.Toml.Fault
import LookML.Data.Value

/-!
# Scalars of TOML

Readers of text, numbers, dates and times.  A reader gives its value and the text
behind it, or stops with a cause.
-/

namespace LookML.Data.Toml

open Text

def stop {α : Type} (cause : Cause) (rest : Text) : Except Stop α :=
  .error ⟨cause, rest⟩

/-- Blanks within a line. -/
def isGap (c : Char) : Bool :=
  c == ' ' || c == '\t'

/-- Blanks and line breaks. -/
def isGapOrBreak (c : Char) : Bool :=
  isGap c || c == '\n'

def skipGap (text : Text) : Text :=
  text.dropWhile isGap

/-- Control characters other than tabs. -/
def isControl (c : Char) : Bool :=
  (c.toNat < 0x20 && c != '\t') || c.toNat == 0x7F

/-- Characters that text over several lines cannot hold. -/
def isControlInLines (c : Char) : Bool :=
  isControl c && c != '\n'

/-- The text before a mark.  Some characters may not stand before it; the mark is
looked for first. -/
def readUntil (mark : Text) (refused : Char → Bool) (text : Text) : Except Stop (Text × Text) :=
  match cut? mark text with
  | none => stop (.expected mark) []
  | some (content, rest) =>
    match content.find? refused with
    | some c => stop (.unexpectedCharacter c) (text.dropWhile fun c => !refused c)
    | none => .ok (content, rest)

/-- The text behind a comment, at the end of its line. -/
def skipComment (text : Text) : Except Stop Text :=
  match text with
  | '#' :: rest =>
    let content := rest.takeWhile (· ≠ '\n')
    match content.find? isControl with
    | some c => stop (.unexpectedCharacter c) (rest.dropWhile fun c => !isControl c)
    | none => .ok (rest.dropWhile (· ≠ '\n'))
  | _ => .ok text

/-- A character given by hexadecimal digits. -/
def readHex (count : Nat) (text : Text) : Except Stop (Text × Text) :=
  let digits := text.take count
  let isHex := fun c : Char =>
    c.isDigit || ('a' ≤ c && c ≤ 'f') || ('A' ≤ c && c ≤ 'F')
  if digits.length = count ∧ digits.all isHex then
    let code := digitsValue 16 digits
    if h : code.isValidChar then .ok ([Char.ofNatAux code h], text.drop count)
    else stop .notScalar (text.drop count)
  else
    stop .invalidHex text

/-- The character an escape of two characters stands for. -/
def simpleEscape? : Char → Option Char
  | 'b' => some '\x08'
  | 't' => some '\t'
  | 'n' => some '\n'
  | 'f' => some '\x0c'
  | 'r' => some '\r'
  | '"' => some '"'
  | '\\' => some '\\'
  | _ => none

/-- An escape, from its backslash on.  In text over several lines a backslash at
the end of a line skips the blanks and line breaks that follow. -/
def readEscape (lines : Bool) (text : Text) : Except Stop (Text × Text) :=
  let rest := text.drop 2
  match text.drop 1 with
  | 'u' :: _ => readHex 4 rest
  | 'U' :: _ => readHex 8 rest
  | c :: _ =>
    if lines && c == '\n' then
      .ok ([], rest.dropWhile isGapOrBreak)
    else if lines && isGap c then
      match skipGap rest with
      | [] => .ok ([], [])
      | '\n' :: rest => .ok ([], rest.dropWhile isGapOrBreak)
      | rest => stop .unescapedBackslash rest
    else
      match simpleEscape? c with
      | some c => .ok ([c], rest)
      | none => stop .unescapedBackslash rest
  | [] => stop .unescapedBackslash rest

/-- Text between double quotes, from behind the opening ones on.  `fuel` bounds the
characters and escapes. -/
def readBasic (lines : Bool) : Nat → Text → Except Stop (Text × Text)
  | _, [] => stop .unterminatedText []
  | 0, text => stop .unterminatedText text
  | fuel + 1, c :: text =>
    if c = '"' then
      if !lines then
        .ok ([], text)
      else
        match after? ['"', '"', '"'] (c :: text) with
        | some rest => .ok ([], rest)
        | none => do
            let (content, rest) ← readBasic lines fuel text
            .ok (c :: content, rest)
    else if c = '\\' then do
      let (escaped, rest) ← readEscape lines (c :: text)
      let (content, rest) ← readBasic lines fuel rest
      .ok (escaped ++ content, rest)
    else if (if lines then isControlInLines c else isControl c) then
      stop (.illegalCharacter c) (c :: text)
    else do
      let (content, rest) ← readBasic lines fuel text
      .ok (c :: content, rest)

/-- Text on one line between double quotes. -/
def readBasicLine (text : Text) : Except Stop (Text × Text) :=
  readBasic false (text.length + 1) (text.drop 1)

/-- Text on one line between single quotes. -/
def readLiteralLine (text : Text) : Except Stop (Text × Text) :=
  readUntil ['\''] isControl (text.drop 1)

/-- Text over several lines between three quotes.  Up to two more quotes at its end
belong to it. -/
def readLines (quote : Char) (text : Text) : Except Stop (Text × Text) := do
  let start := text.drop 3
  let start := (after? ['\n'] start).getD start
  let (content, rest) ←
    if quote = '\'' then readUntil ['\'', '\'', '\''] isControlInLines start
    else readBasic true (start.length + 1) start
  let extra := (rest.take 2).takeWhile (· == quote)
  .ok (content ++ extra, rest.drop extra.length)

/-- Digits of a base that single underscores may separate, at the start of a text:
the digits without underscores and the rest. -/
def digitRun (isDigit : Char → Bool) : Text → Text × Text
  | '_' :: c :: text =>
    if isDigit c then
      let run := digitRun isDigit text
      (c :: run.1, run.2)
    else
      ([], '_' :: c :: text)
  | c :: text =>
    if isDigit c then
      let run := digitRun isDigit text
      (c :: run.1, run.2)
    else
      ([], c :: text)
  | [] => ([], [])

/-- A run of digits that begins with a digit. -/
def digits? (isDigit : Char → Bool) (text : Text) : Option (Text × Text) :=
  if text.head?.any isDigit then some (digitRun isDigit text) else none

/-- An integer in base sixteen, eight or two. -/
def based? (text : Text) : Option (Value × Text) :=
  let read (mark : Char) (base : Nat) (isDigit : Char → Bool) : Option (Value × Text) := do
    let rest ← after? ['0', mark] text
    let (digits, rest) ← digits? isDigit rest
    some (.integer (digitsValue base digits), rest)
  (read 'x' 16 fun c => c.isDigit || ('a' ≤ c && c ≤ 'f') || ('A' ≤ c && c ≤ 'F')).or <|
    (read 'b' 2 fun c => c == '0' || c == '1').or
      (read 'o' 8 fun c => '0' ≤ c && c ≤ '7')

def readSign : Text → Bool × Text
  | '-' :: text => (true, text)
  | '+' :: text => (false, text)
  | text => (false, text)

/-- A number of either sign. -/
def signed (negative : Bool) (number : Float) : Float :=
  if negative then -number else number

/-- The most digits a decimal integer may have. -/
def maxDigits : Nat := 4300

/-- A decimal integer or a real number. -/
def decimal? (text : Text) : Option (Except Cause Value × Text) := do
  let (negative, start) := readSign text
  let (whole, rest) ←
    match start with
    | '0' :: rest => some (['0'], rest)
    | _ => digits? Char.isDigit start
  let point := (after? ['.'] rest).bind (digits? Char.isDigit)
  let fraction := (point.map (·.1)).getD []
  let rest := (point.map (·.2)).getD rest
  let power := (rest.head?.bind fun c => if c == 'e' || c == 'E' then some () else none).bind
    fun _ =>
      let (negative, digits) := readSign (rest.drop 1)
      (digits? Char.isDigit digits).map fun (digits, rest) => ((negative, digits), rest)
  match point, power with
  | none, none =>
    if maxDigits < whole.length then
      some (.error .oversizedInteger, rest)
    else
      let value : Int := digitsValue 10 whole
      some (.ok (.integer (if negative then -value else value)), rest)
  | _, _ =>
    let exponent : Int :=
      match power with
      | some ((negative, digits), _) =>
        if negative then -digitsValue 10 digits else digitsValue 10 digits
      | none => 0
    let mantissa := digitsValue 10 (whole ++ fraction)
    let number := realOfDecimal mantissa (exponent - fraction.length)
    some (.ok (.real (signed negative number)), (power.map (·.2)).getD rest)

/-- The real numbers that are no numerals. -/
def special? (text : Text) : Option (Value × Text) :=
  let (negative, start) := readSign text
  ((after? "inf".toList start).map fun rest => (.real (signed negative (1.0 / 0.0)), rest)).or
    ((after? "nan".toList start).map fun rest => (.real (0.0 / 0.0), rest))

/-- A number of exactly `count` digits within bounds. -/
def fixed? (count low high : Nat) (text : Text) : Option (Nat × Text) :=
  let digits := text.take count
  let value := digitsValue 10 digits
  if digits.length = count ∧ digits.all Char.isDigit ∧ low ≤ value ∧ value ≤ high then
    some (value, text.drop count)
  else
    none

/-- A time of day.  Digits beyond the microsecond are dropped. -/
def time? (text : Text) : Option (Time × Text) := do
  let (hour, rest) ← fixed? 2 0 23 text
  let rest ← after? [':'] rest
  let (minute, rest) ← fixed? 2 0 59 rest
  let rest ← after? [':'] rest
  let (second, rest) ← fixed? 2 0 59 rest
  match rest with
  | '.' :: tail =>
    let digits := tail.takeWhile Char.isDigit
    if digits.isEmpty then
      some (⟨hour, minute, second, 0⟩, rest)
    else
      let micros := digitsValue 10 (padRight '0' 6 (digits.take 6))
      some (⟨hour, minute, second, micros⟩, tail.dropWhile Char.isDigit)
  | _ => some (⟨hour, minute, second, 0⟩, rest)

/-- The offset behind a date and time. -/
def offset? : Text → Option (Int × Text)
  | 'Z' :: rest | 'z' :: rest => some (0, rest)
  | sign :: text => do
      let (hours, rest) ← fixed? 2 0 23 text
      let rest ← after? [':'] rest
      let (minutes, rest) ← fixed? 2 0 59 rest
      let offset : Int := hours * 60 + minutes
      if sign = '+' then some (offset, rest)
      else if sign = '-' then some (-offset, rest)
      else none
  | [] => none

def daysOf (year month : Nat) : Nat :=
  if month = 2 then
    if year % 4 = 0 ∧ (year % 100 ≠ 0 ∨ year % 400 = 0) then 29 else 28
  else if [4, 6, 9, 11].contains month then 30
  else 31

def Date.isValid (date : Date) : Bool :=
  1 ≤ date.year && date.day ≤ daysOf date.year date.month

/-- A date, perhaps with a time and an offset. -/
def moment? (text : Text) : Option (Date × Moment × Text) := do
  let (year, rest) ← fixed? 4 0 9999 text
  let rest ← after? ['-'] rest
  let (month, rest) ← fixed? 2 1 12 rest
  let rest ← after? ['-'] rest
  let (day, rest) ← fixed? 2 1 31 rest
  let date : Date := ⟨year, month, day⟩
  let time :=
    match rest with
    | c :: tail => if c == 'T' || c == 't' || c == ' ' then time? tail else none
    | [] => none
  match time with
  | none => some (date, .date date, rest)
  | some (time, rest) =>
    match offset? rest with
    | some (offset, rest) => some (date, .dateTime date time (some offset), rest)
    | none => some (date, .dateTime date time none, rest)

end LookML.Data.Toml
