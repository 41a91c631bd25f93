/-!
# Text

Source text is a list of characters, so that columns, lengths and positions all
count code points.  This module holds the cuts every reader of text is made of:
what follows a given beginning, and what stands around an occurrence.
-/

namespace LookML

/-- Text as a list of code points. -/
abbrev Text := List Char

namespace Text

/-- What follows `lead` in a text that starts with it. -/
def after? : Text → Text → Option Text
  | [], text => some text
  | _ :: _, [] => none
  | expected :: lead, actual :: text =>
    if expected = actual then after? lead text else none

/-- The text around the first occurrence of `mark`. -/
def cut? (mark : Text) : Text → Option (Text × Text)
  | [] => (after? mark []).map fun rest => ([], rest)
  | c :: text =>
    match after? mark (c :: text) with
    | some rest => some ([], rest)
    | none => (cut? mark text).map fun (before, rest) => (c :: before, rest)

theorem length_after? {lead text rest : Text} (found : after? lead text = some rest) :
    rest.length ≤ text.length := by
  induction lead generalizing text with
  | nil =>
    simp only [after?, Option.some.injEq] at found
    simp [found]
  | cons expected lead ih =>
    cases text with
    | nil => simp [after?] at found
    | cons actual text =>
      simp only [after?] at found
      split at found
      · exact Nat.le_succ_of_le (ih found)
      · cases found

theorem length_cut? {mark text before rest : Text}
    (found : cut? mark text = some (before, rest)) : rest.length ≤ text.length := by
  induction text generalizing before with
  | nil =>
    simp only [cut?, Option.map_eq_some_iff, Prod.mk.injEq] at found
    obtain ⟨tail, follows, -, rfl⟩ := found
    exact length_after? follows
  | cons c text ih =>
    simp only [cut?] at found
    split at found
    · rename_i follows
      cases found
      exact length_after? follows
    · simp only [Option.map_eq_some_iff, Prod.exists, Prod.mk.injEq] at found
      obtain ⟨_, tail, later, -, rfl⟩ := found
      exact Nat.le_succ_of_le (ih later)

/-- The text around the last occurrence of `mark`. -/
def cutLast? (mark : Text) : Text → Option (Text × Text)
  | [] => (after? mark []).map fun rest => ([], rest)
  | c :: text =>
    match cutLast? mark text with
    | some (before, rest) => some (c :: before, rest)
    | none => (after? mark (c :: text)).map fun rest => ([], rest)

def occursIn (mark text : Text) : Bool :=
  (cut? mark text).isSome

/-- The text without `tail`, when it ends in it. -/
def before? (tail text : Text) : Option Text :=
  if tail.isSuffixOf text then some (text.take (text.length - tail.length)) else none

/-- The pieces of a text between the occurrences of a character, at least one. -/
def split (mark : Char) : Text → List Text
  | [] => [[]]
  | c :: text =>
    if c = mark then
      [] :: split mark text
    else
      match split mark text with
      | [] => [[c]]
      | piece :: pieces => (c :: piece) :: pieces

/-- The shortest beginning of a text behind which `stop` holds, and the rest. -/
def takeUntil? (stop : Text → Bool) : Text → Option (Text × Text)
  | [] => if stop [] then some ([], []) else none
  | c :: text =>
    if stop (c :: text) then some ([], c :: text)
    else (takeUntil? stop text).map fun (taken, rest) => (c :: taken, rest)

/-- Texts joined with a separator between neighbours. -/
def joinWith (separator : Text) (parts : List Text) : Text :=
  separator.intercalate parts

/-- The text repeated a number of times. -/
def times (count : Nat) (text : Text) : Text :=
  (List.replicate count text).flatten

/-- Order by code point, a shorter text before its extensions. -/
def le : Text → Text → Bool
  | [], _ => true
  | _ :: _, [] => false
  | a :: left, b :: right => if a = b then le left right else a.toNat < b.toNat

/-- The members of a list in code point order, each of them once. -/
def sortedSet (members : List Text) : List Text :=
  members.eraseDups.mergeSort le

end Text

end LookML
