import LookML.Display.Picture
import LookML.Text.Decimal
import LookML.Text.Digit

/-!
# Styles

A style is written in words: attributes such as `bold`, a colour, `on` and a colour
for the ground, `link` and an address.  A plain display has no styles, but two
spellings of one style name the same tag.
-/

namespace LookML.Display

open Text

/-- Why words do not describe a style. -/
inductive StyleFault where
  | unknown
  | badNumber
  deriving Repr, DecidableEq

/-- The attributes of styles, each with its short name, in the order in which a
style lists them. -/
def attributes : List (Text × Option Text) :=
  [("bold".toList, some ['b']), ("dim".toList, some ['d']), ("italic".toList, some ['i']),
    ("underline".toList, some ['u']), ("blink".toList, none), ("blink2".toList, none),
    ("reverse".toList, some ['r']), ("conceal".toList, some ['c']),
    ("strike".toList, some ['s']), ("underline2".toList, some ['u', 'u']),
    ("frame".toList, none), ("encircle".toList, none), ("overline".toList, some ['o'])]

/-- The attribute that a word names. -/
def attribute? (word : Text) : Option Text :=
  (attributes.find? fun (name, short) => name = word || short = some word).map (·.1)

def colourLines : List String :=
  ["black red green yellow blue magenta cyan white bright_black bright_red",
   "bright_green bright_yellow bright_blue bright_magenta bright_cyan bright_white",
   "grey0 gray0 navy_blue dark_blue blue3 blue1 dark_green deep_sky_blue4 dodger_blue3",
   "dodger_blue2 green4 spring_green4 turquoise4 deep_sky_blue3 dodger_blue1 green3",
   "spring_green3 dark_cyan light_sea_green deep_sky_blue2 deep_sky_blue1",
   "spring_green2 cyan3 dark_turquoise turquoise2 green1 spring_green1",
   "medium_spring_green cyan2 cyan1 dark_red deep_pink4 purple4 purple3 blue_violet",
   "orange4 grey37 gray37 medium_purple4 slate_blue3 royal_blue1 chartreuse4",
   "dark_sea_green4 pale_turquoise4 steel_blue steel_blue3 cornflower_blue chartreuse3",
   "cadet_blue sky_blue3 steel_blue1 pale_green3 sea_green3 aquamarine3",
   "medium_turquoise chartreuse2 sea_green2 sea_green1 aquamarine1 dark_slate_gray2",
   "dark_magenta dark_violet purple light_pink4 plum4 medium_purple3 slate_blue1",
   "yellow4 wheat4 grey53 gray53 light_slate_grey light_slate_gray medium_purple",
   "light_slate_blue dark_olive_green3 dark_sea_green light_sky_blue3 sky_blue2",
   "dark_sea_green3 dark_slate_gray3 sky_blue1 chartreuse1 light_green pale_green1",
   "dark_slate_gray1 red3 medium_violet_red magenta3 dark_orange3 indian_red hot_pink3",
   "medium_orchid3 medium_orchid medium_purple2 dark_goldenrod light_salmon3",
   "rosy_brown grey63 gray63 medium_purple1 gold3 dark_khaki navajo_white3 grey69",
   "gray69 light_steel_blue3 light_steel_blue yellow3 dark_sea_green2 light_cyan3",
   "light_sky_blue1 green_yellow dark_olive_green2 dark_sea_green1 pale_turquoise1",
   "deep_pink3 magenta2 hot_pink2 orchid medium_orchid1 orange3 light_pink3 pink3",
   "plum3 violet light_goldenrod3 tan misty_rose3 thistle3 plum2 khaki3",
   "light_goldenrod2 light_yellow3 grey84 gray84 light_steel_blue1 yellow2",
   "dark_olive_green1 honeydew2 light_cyan1 red1 deep_pink2 deep_pink1 magenta1",
   "orange_red1 indian_red1 hot_pink dark_orange salmon1 light_coral pale_violet_red1",
   "orchid2 orchid1 orange1 sandy_brown light_salmon1 light_pink1 pink1 plum1 gold1",
   "navajo_white1 misty_rose1 thistle1 yellow1 light_goldenrod1 khaki1 wheat1",
   "cornsilk1 grey100 gray100 grey3 gray3 grey7 gray7 grey11 gray11 grey15 gray15",
   "grey19 gray19 grey23 gray23 grey27 gray27 grey30 gray30 grey35 gray35 grey39",
   "gray39 grey42 gray42 grey46 gray46 grey50 gray50 grey54 gray54 grey58 gray58",
   "grey62 gray62 grey66 gray66 grey70 gray70 grey74 gray74 grey78 gray78 grey82",
   "gray82 grey85 gray85 grey89 gray89 grey93 gray93"]

def colourNames : List Text :=
  "default".toList :: wordsOf colourLines

/-- The value of a decimal digit of any script. -/
def decimalDigitValue (c : Char) : Nat :=
  c.toNat - (digitZero? c).getD '0'.toNat

/-- The value of decimal digits of any script. -/
def decimalValue (digits : Text) : Nat :=
  digits.foldl (fun value c => value * 10 + decimalDigitValue c) 0

/-- The text between a lead and a closing parenthesis. -/
def argument? (lead : String) (word : Text) : Option Text := do
  before? [')'] (← after? lead.toList word)

/-- What is wrong with the components of a colour. -/
def componentsFault? (components : List Text) : Option StyleFault :=
  if components.length ≠ 3 then some .unknown
  else if components.any fun digits => digits.isEmpty || 4300 < digits.length then
    some .badNumber
  else if components.any fun digits => 255 < decimalValue digits then some .unknown
  else none

/-- What is wrong with the name of a colour in lower case: a known name, a number
sign and six digits, the number of a colour, or three components. -/
def colourFault? (word : Text) : Option StyleFault :=
  if colourNames.contains word then none
  else
    match after? ['#'] word, argument? "color(" word, argument? "rgb(" word with
    | some digits, _, _ =>
      if digits.length = 6 && digits.all fun c => c.isDigit || ('a' ≤ c && c ≤ 'f') then none
      else some .unknown
    | none, some digits, _ =>
      if 1 ≤ digits.length && digits.length ≤ 3 && digits.all Char.isDigit
          && decimalValue digits ≤ 255 then none
      else some .unknown
    | none, none, some inner =>
      if !inner.isEmpty && inner.all fun c => isDecimalDigit c || c == ',' then
        componentsFault? (split ',' inner)
      else
        some .unknown
    | none, none, none => some .unknown

/-- What a style says. -/
structure Style where
  attributes : List (Text × Bool) := []
  colour : Option Text := none
  ground : Option Text := none
  link : Option Text := none
  deriving Repr, DecidableEq

namespace Style

/-- A colour in lower case, if there is one of that name. -/
def colour? (word : Text) : Except StyleFault Text :=
  match colourFault? (lower word) with
  | none => .ok (lower word)
  | some fault => .error fault

/-- Read the words of a style.  What is said later holds. -/
def read (style : Style) : List Text → Except StyleFault Style
  | [] => .ok style
  | [word] =>
    if ["on".toList, "not".toList, "link".toList].contains (lower word) then
      .error .unknown
    else
      match attribute? (lower word) with
      | some name => .ok { style with attributes := (name, true) :: style.attributes }
      | none => (colour? word).map fun colour => { style with colour := some colour }
  | word :: next :: words =>
    if lower word = "on".toList then do
      let colour ← colour? next
      read { style with ground := some colour } words
    else if lower word = "not".toList then
      match attribute? next with
      | some name => read { style with attributes := (name, false) :: style.attributes } words
      | none => .error .unknown
    else if lower word = "link".toList then
      read { style with link := some next } words
    else
      match attribute? (lower word) with
      | some name =>
        read { style with attributes := (name, true) :: style.attributes } (next :: words)
      | none => do
          let colour ← colour? word
          read { style with colour := some colour } (next :: words)

/-- The words of a style in their order. -/
def words (style : Style) : List Text :=
  (Display.attributes.filterMap fun (name, _) =>
      (style.attributes.lookup name).map fun set =>
        if set then name else "not ".toList ++ name)
    ++ style.colour.toList
    ++ (style.ground.map ("on ".toList ++ ·)).toList
    ++ (style.link.map ("link ".toList ++ ·)).toList

def text (style : Style) : Text :=
  if style.words.isEmpty then "none".toList else joinWith [' '] style.words

end Style

/-- The words of a text, which blanks separate. -/
def blankWords (text : Text) : List Text :=
  (split ' ' (text.map fun c => if isBlank c then ' ' else c)).filter fun word => !word.isEmpty

/-- The name under which a tag is known: the text of its style where it is one. -/
def tagName (name : Text) : Except StyleFault Text :=
  if trim name = "none".toList then .ok "none".toList
  else
    match Style.read {} (blankWords name) with
    | .ok style => .ok style.text
    | .error .unknown => .ok (lower (trim name))
    | .error .badNumber => .error .badNumber

end LookML.Display
