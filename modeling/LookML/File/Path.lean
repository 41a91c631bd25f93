import LookML.Text.Basic

/-!
# Paths

A path is a sequence of names, from the root or from the working directory.  Empty
names and the name `.` do not count; `..` is kept.  Two slashes at the beginning of a path, but
no other number of them, are kept, too.
-/

namespace LookML

open Text

structure Path where
  root : Text
  parts : List Text
  deriving Repr, DecidableEq

namespace Path

def isAbsolute (path : Path) : Bool :=
  !path.root.isEmpty

/-- The path of names from the root on. -/
def fromRoot (names : List Text) : Path :=
  ⟨['/'], names⟩

/-- The path of names from the working directory on. -/
def fromHere (names : List Text) : Path :=
  ⟨[], names⟩

/-- The slashes that count at the beginning of a text. -/
def rootOf (text : Text) : Text :=
  match (text.takeWhile (· == '/')).length with
  | 0 => []
  | 2 => ['/', '/']
  | _ => ['/']

/-- The path that a text spells. -/
def ofText (text : Text) : Path where
  root := rootOf text
  parts := (split '/' text).filter fun part => !part.isEmpty && part != ['.']

def text (path : Path) : Text :=
  let joined := joinWith ['/'] path.parts
  if path.isAbsolute || !joined.isEmpty then path.root ++ joined else ['.']

def name (path : Path) : Text :=
  path.parts.getLastD []

/-- A path extended by names. -/
def join (path : Path) (names : List Text) : Path :=
  { path with parts := path.parts ++ names }

/-- The names that the order of paths compares. -/
def orderKey (path : Path) : List Text :=
  if path.isAbsolute then path.root :: path.parts else path.parts

/-- The order of paths, name by name. -/
def le (left right : Path) : Bool :=
  go left.orderKey right.orderKey
where
  /-- The order of lists of names. -/
  go : List Text → List Text → Bool
    | [], _ => true
    | _ :: _, [] => false
    | a :: left, b :: right => if a = b then go left right else Text.le a b

/-- The names of a path seen from a directory, with each `..` carried out. -/
def resolve (here : List Text) (path : Path) : List Text :=
  path.parts.foldl (fun names part => if part = ['.', '.'] then names.dropLast else names ++ [part])
    (if path.isAbsolute then [] else here)

/-- A directory and all directories above it, the nearest first. -/
def ancestors (directory : List Text) : List (List Text) :=
  (List.range (directory.length + 1)).map fun count => directory.take (directory.length - count)

end Path

end LookML
