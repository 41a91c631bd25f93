import LookML.Display.Literal
import LookML.Display.Style

/-!
# Markup

Text for a display may hold style tags between brackets, such as `[bold]`, and
closing tags such as `[/bold]`; `[/]` closes the tag opened last.  A tag that begins with `@` stands
for an action, and its parameters are literals.  Backslashes before a tag keep it as text.  A
plain display shows no tags, but a closing tag without one to close is a fault.
-/

namespace LookML.Display

open Text

/-- Why markup cannot be shown. -/
inductive MarkupFault where
  | nothingToClose
  | badParameters
  | badColour
  deriving Repr, DecidableEq

/-- A tag: its name, and the parameters behind an equals sign. -/
structure Tag where
  name : Text
  parameters : Option Text
  deriving Repr, DecidableEq

/-- A part of a text with markup. -/
inductive Fragment where
  | plain (text : Text)
  | tag (tag : Tag)
  deriving Repr, DecidableEq

def beginsTag (c : Char) : Bool :=
  ('a' ≤ c && c ≤ 'z') || c == '#' || c == '/' || c == '@'

/-- What stands between the brackets of the tag that a text begins with. -/
def tagAt? : Text → Option Text
  | '[' :: c :: text =>
    let inner := text.takeWhile fun c => c != ']' && c != '['
    if beginsTag c && (text.drop inner.length).head? == some ']' then
      some (c :: inner)
    else
      none
  | _ => none

def Tag.ofText (inner : Text) : Tag :=
  match cut? ['='] inner with
  | some (name, parameters) => ⟨name, some parameters⟩
  | none => ⟨inner, none⟩

/-- A tag with the backslashes before it, and their length.  Two backslashes stand for
one, and an odd one keeps the tag as text. -/
def fragmentsAt? (text : Text) : Option (List Fragment × Nat) :=
  let slashes := text.takeWhile (· == '\\')
  (tagAt? (text.drop slashes.length)).map fun inner =>
    let kept := List.replicate (slashes.length / 2) '\\'
    let last :=
      if slashes.length % 2 = 1 then .plain (['['] ++ inner ++ [']'])
      else .tag (.ofText inner)
    ((if kept.isEmpty then [last] else [.plain kept, last]), slashes.length + inner.length + 2)

/-- Fragments from the pieces of a scan; `pending` holds the characters before them in
reverse order. -/
def gatherFrom (pending : Text) : List (Piece (List Fragment)) → List Fragment
  | [] => if pending.isEmpty then [] else [.plain pending.reverse]
  | .plain c :: pieces => gatherFrom (c :: pending) pieces
  | .found fragments :: pieces =>
    (if pending.isEmpty then [] else [.plain pending.reverse]) ++ fragments
      ++ gatherFrom [] pieces

def fragments (text : Text) : List Fragment :=
  gatherFrom [] (scan (fun _ rest => fragmentsAt? rest) text)

/-- Characters that would move the cursor or ring. -/
def isControl (c : Char) : Bool :=
  c == '\x07' || c == '\x08' || c == '\x0b' || c == '\x0c' || c == '\r'

/-- What is shown of a text between tags: a backslash before a bracket goes, and names
of pictures become pictures. -/
def shownPlain (text : Text) : Text :=
  (withPictures (replaceAll ['\\', '['] ['['] text)).filter fun c => !isControl c

/-- The arguments of an action: what stands in parentheses behind its name, or the
parameters themselves where they are not of that form. -/
def actionArguments (parameters : Text) : Text :=
  let behind := parameters.dropWhile fun c => isWord c || c == '.'
  if behind.isEmpty then ['(', ')']
  else if behind.head? = some '(' && 2 ≤ behind.length && behind.getLast? = some ')' then behind
  else parameters

/-- Whether a tag can be closed: the arguments of an action are literals. -/
def Tag.isClosable (tag : Tag) : Bool :=
  match tag.name, tag.parameters with
  | '@' :: _, some (c :: parameters) => isLiteral (actionArguments (trim (c :: parameters)))
  | _, _ => true

/-- A tag under the name it is known by. -/
def Tag.known (tag : Tag) : Except MarkupFault Tag :=
  match tagName tag.name with
  | .ok name => .ok { tag with name }
  | .error _ => .error .badColour

/-- Close the tag of a name among the open ones, the last of which stands first; without a
name, close the last one. -/
def closeTag (name : Text) (opened : List Tag) : Except MarkupFault (List Tag) := do
  let found ←
    if name.isEmpty then
      .ok opened.head?
    else do
      let closing ← Tag.known ⟨name, none⟩
      .ok (opened.find? fun tag => tag.name = closing.name)
  match found with
  | none => .error .nothingToClose
  | some tag => if tag.isClosable then .ok (opened.erase tag) else .error .badParameters

/-- What is shown of fragments behind some open tags. -/
def showFrom (opened : List Tag) : List Fragment → Except MarkupFault Text
  | [] => .ok []
  | .plain text :: fragments => do
      let shown ← showFrom opened fragments
      .ok (shownPlain text ++ shown)
  | .tag tag :: fragments =>
    match tag.name with
    | '/' :: name => do
        let opened ← closeTag (trim name) opened
        showFrom opened fragments
    | _ => do
        let known ← tag.known
        showFrom (known :: opened) fragments

/-- The text as a plain display shows it. -/
def shown (text : Text) : Except MarkupFault Text :=
  showFrom [] (fragments text)

end LookML.Display
