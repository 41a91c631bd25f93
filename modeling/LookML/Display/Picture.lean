import LookML.Display.PictureNames
import LookML.Text.Blank
import LookML.Text.Lower
import LookML.Text.Scan
import LookML.Text.Upper

/-!
# Pictures by name

A name between colons stands for a picture.  The name may end in `-text` or
`-emoji`, which selects one of the two forms that some pictures have.
-/

namespace LookML.Display

open Text

def wordsOf (lines : List String) : List Text :=
  lines.flatMap fun line => split ' ' line.toList

def wordPairs : List Text → List (Text × Text)
  | first :: second :: words => (first, second) :: wordPairs words
  | _ => []

/-- Pictures by name.  A word that ends beyond ASCII is a picture, for the names before it. -/
def picturesFrom (names : List Text) : List Text → List (Text × Text)
  | [] => []
  | word :: words =>
    if word.getLast?.any (128 ≤ ·.toNat) then
      names.map (·, word) ++ picturesFrom [] words
    else
      picturesFrom (word :: names) words

def pictures : List (Text × Text) :=
  picturesFrom [] (wordsOf pictureLines)

/-- The names of pictures that come in skin tones. -/
def tonedNames : List Text :=
  wordsOf tonedLines

/-- The codes of regions by name. -/
def regions : List (Text × Text) :=
  wordPairs (wordsOf regionLines)

/-- The codes of regions by the other names of their flags. -/
def flags : List (Text × Text) :=
  wordPairs (wordsOf flagLines)

/-- The names of the skin tones, and the characters for them. -/
def skinTones : List (Text × Char) :=
  [("dark".toList, '🏿'), ("light".toList, '🏻'), ("medium-dark".toList, '🏾'),
    ("medium-light".toList, '🏼'), ("medium".toList, '🏽')]

/-- A picture in a skin tone, which stands behind its first character and takes the
place of a selector there. -/
def inTone (tone : Char) : Text → Text
  | [] => []
  | c :: '\uFE0F' :: picture => c :: tone :: picture
  | c :: picture => c :: tone :: picture

/-- The name of a man at the occupation of a woman. -/
def manOf? (name : Text) : Option Text :=
  (after? "woman_".toList name).map ("man_".toList ++ ·)

/-- The sign for a woman in the place of the one for a man. -/
def womanOf (c : Char) : Char :=
  if c = '👨' then '👩' else if c = '♂' then '♀' else c

/-- The picture of a woman, where that of the man has joined parts. -/
def womanPicture? (name : Text) : Option Text := do
  let picture ← pictures.lookup (← manOf? name)
  if picture.contains '\u200D' then some (picture.map womanOf) else none

/-- The picture that a name stands for, without tones and flags. -/
def plainPicture? (name : Text) : Option Text :=
  (pictures.lookup name).or (womanPicture? name)

/-- The picture in a skin tone that a name stands for. -/
def tonedPicture? (name : Text) : Option Text :=
  skinTones.findSome? fun (tone, character) => do
    let base ← before? ('_' :: tone ++ "_skin_tone".toList) name
    if tonedNames.contains base || (manOf? base).any tonedNames.contains then
      (plainPicture? base).map (inTone character)
    else
      none

/-- The flag of a region: the letters of its code as regional indicators. -/
def flagOf (code : Text) : Text :=
  code.map fun letter => Char.ofNat (letter.toNat - 'A'.toNat + 0x1F1E6)

/-- The sign of a letter, as flags are made of. -/
def indicator? (name : Text) : Option Text := do
  let letter ← after? "regional_indicator_".toList name
  match (after? "symbol_letter_".toList letter).getD letter with
  | [c] => if 'a' ≤ c ∧ c ≤ 'z' then some (flagOf (upper [c])) else none
  | _ => none

/-- The members of families, adults before children. -/
def families : List Text :=
  (wordsOf ["man woman man_man man_woman woman_woman"]).flatMap fun adults =>
    (wordsOf ["boy girl boy_boy girl_boy girl_girl"]).map fun children => adults ++ '_' :: children

/-- The picture of a family, where those of its members are joined. -/
def family? (name : Text) : Option Text := do
  let members ← after? "family_".toList name
  if families.contains members then
    some (joinWith ['\u200D'] ((split '_' members).filterMap fun member => pictures.lookup member))
  else
    none

/-- The flag that a name stands for. -/
def flag? (name : Text) : Option Text :=
  let region := (after? "flag_for_".toList name).getD name
  ((flags.lookup name).or (regions.lookup region)).map flagOf

/-- The picture that a name in lower case stands for. -/
def picture? (name : Text) : Option Text :=
  ((plainPicture? name).or (tonedPicture? name)).or
    ((flag? name).or ((indicator? name).or (family? name)))

/-- The picture that a name in any case stands for, with its form. -/
def selectedPicture? (name : Text) : Option Text :=
  match before? "-emoji".toList name, before? "-text".toList name with
  | some name, _ => (picture? (lower name)).map (· ++ ['\uFE0F'])
  | none, some name => (picture? (lower name)).map (· ++ ['\uFE0E'])
  | none, none => picture? (lower name)

/-- What a name between colons shows, and its length with them.  An unknown name
shows as it is written. -/
def pictureAt? : Text → Option (Text × Nat)
  | ':' :: text =>
    let name := text.takeWhile fun c => c != ':' && !isBlank c
    if (text.drop name.length).head? == some ':' then
      some ((selectedPicture? name).getD ([':'] ++ name ++ [':']), name.length + 2)
    else
      none
  | _ => none

/-- The text with pictures in the place of their names. -/
def withPictures (text : Text) : Text :=
  substitute (fun _ rest => pictureAt? rest) text

end LookML.Display
