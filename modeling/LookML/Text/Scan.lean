import LookML.Text.Basic

/-!
# Scanning for occurrences

A recogniser looks at the character before a position and at the text from that
position on.  Scanning runs a recogniser from left to right: the leftmost
occurrence wins and the scan goes on behind it, so occurrences never overlap.
-/

namespace LookML.Text

/-- What a scan finds: a character outside every occurrence, or an
occurrence. -/
inductive Piece (α : Type) where
  | plain (c : Char)
  | found (value : α)
  deriving Repr

/-- Scan on from a position.  `pending` characters still belong to the
occurrence found last.  A recogniser gives its result and the number of
characters it takes. -/
def scanFrom {α : Type} (recognise : Option Char → Text → Option (α × Nat)) :
    Option Char → Nat → Text → List (Piece α)
  | _, _, [] => []
  | _, pending + 1, c :: text => scanFrom recognise (some c) pending text
  | before, 0, c :: text =>
    match recognise before (c :: text) with
    | some (value, taken) =>
      .found value :: scanFrom recognise (some c) (taken - 1) text
    | none => .plain c :: scanFrom recognise (some c) 0 text

/-- The pieces of a whole text. -/
def scan {α : Type} (recognise : Option Char → Text → Option (α × Nat))
    (text : Text) : List (Piece α) :=
  scanFrom recognise none 0 text

/-- All occurrences, in order. -/
def findAll {α : Type} (recognise : Option Char → Text → Option (α × Nat))
    (text : Text) : List α :=
  (scan recognise text).filterMap fun
    | .plain _ => none
    | .found value => some value

/-- The text with every occurrence replaced by what the recogniser gives. -/
def substitute (recognise : Option Char → Text → Option (Text × Nat))
    (text : Text) : Text :=
  (scan recognise text).flatMap fun
    | .plain c => [c]
    | .found replacement => replacement

/-- The text with every occurrence of `old` replaced.  An empty `old` occurs before
every character and at the end. -/
def replaceAll (old new text : Text) : Text :=
  if old.isEmpty then
    text.flatMap (fun c => new ++ [c]) ++ new
  else
    substitute (fun _ rest => (after? old rest).map fun _ => (new, old.length)) text

/-- The first position, the end of the text included, at which a recogniser
succeeds, with its result. -/
def searchFrom {α : Type} (recognise : Option Char → Text → Option α) :
    Option Char → Text → Option (Nat × α)
  | before, [] => (recognise before []).map fun value => (0, value)
  | before, c :: text =>
    match recognise before (c :: text) with
    | some value => some (0, value)
    | none =>
      (searchFrom recognise (some c) text).map fun (position, value) =>
        (position + 1, value)

/-- The first position of a whole text at which a recogniser succeeds. -/
def search {α : Type} (recognise : Option Char → Text → Option α) (text : Text) :
    Option (Nat × α) :=
  searchFrom recognise none text

end LookML.Text
