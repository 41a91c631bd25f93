import LookML.File.Path
import LookML.Text.Lines
import LookML.Text.Utf8

/-!
# File trees

The part of a file system that a command looks at: files with their bytes and
directories, by their names from the root, and the working directory.
-/

namespace LookML

open Text

/-- What stands at a place in a tree. -/
inductive Node where
  | file (bytes : List UInt8)
  | directory
  deriving Repr, DecidableEq

/-- Why a file cannot be opened.  A name can be too long, and it cannot hold the null
character. -/
inductive OpenFault where
  | notFound
  | notDirectory
  | isDirectory
  | nameTooLong
  | nullInName
  deriving Repr, DecidableEq

namespace OpenFault

/-- The number that systems give a fault. -/
def number : OpenFault → Nat
  | notFound => 2
  | notDirectory => 20
  | isDirectory => 21
  | nullInName => 22
  | nameTooLong => 36

def message : OpenFault → Text
  | notFound => "No such file or directory".toList
  | notDirectory => "Not a directory".toList
  | isDirectory => "Is a directory".toList
  | nullInName => "Invalid argument".toList
  | nameTooLong => "File name too long".toList

end OpenFault

/-- Why a file cannot be read as text. -/
inductive ReadFault where
  | cannotOpen (fault : OpenFault)
  | notText (fault : Utf8Fault)
  deriving Repr, DecidableEq

structure Tree where
  here : List Text
  nodes : List (List Text × Node)
  deriving Repr, DecidableEq

namespace Tree

/-- The tree of given files and directories, seen from a working directory.  The
directories around them belong to it. -/
def ofFiles (here : List Text) (files : List (List Text × List UInt8))
    (directories : List (List Text)) : Tree where
  here := here
  nodes :=
    let parents := files.flatMap fun (names, _) => Path.ancestors names.dropLast
    let around := (directories ++ [here]).flatMap Path.ancestors
    files.map (fun (names, bytes) => (names, .file bytes))
      ++ (parents ++ around).eraseDups.map (·, .directory)

def maxNameLength : Nat := 255

def maxPathLength : Nat := 4095

/-- Go along names from a directory; every name but the last must be one. -/
def walk (tree : Tree) : List Text → List Text → Except OpenFault (List Text × Node)
  | current, parts =>
    match tree.nodes.lookup current with
    | none => .error .notFound
    | some node =>
      match parts with
      | [] => .ok (current, node)
      | part :: parts =>
        if node ≠ .directory then .error .notDirectory
        else if part = ['.', '.'] then tree.walk current.dropLast parts
        else if maxNameLength < (encodeUtf8 part).length then .error .nameTooLong
        else tree.walk (current ++ [part]) parts
  termination_by _ parts => parts.length

/-- What stands at a path, with its names from the root. -/
def find (tree : Tree) (path : Path) : Except OpenFault (List Text × Node) :=
  if path.text.contains '\x00' then .error .nullInName
  else if maxPathLength < (encodeUtf8 path.text).length then .error .nameTooLong
  else tree.walk (if path.isAbsolute then [] else tree.here) path.parts

/-- Whether a path leads to a node of some sort.  Of a name that is too long this
cannot be said. -/
def leadsTo (tree : Tree) (sort : Node → Bool) (path : Path) : Except OpenFault Bool :=
  match tree.find path with
  | .ok (_, node) => .ok (sort node)
  | .error .nameTooLong => .error .nameTooLong
  | .error _ => .ok false

def isDirectory (tree : Tree) (path : Path) : Except OpenFault Bool :=
  tree.leadsTo (· = .directory) path

/-- Whether a path leads to a file. -/
def isFile (tree : Tree) (path : Path) : Except OpenFault Bool :=
  tree.leadsTo (· ≠ .directory) path

/-- The text of a file, with line breaks as line feeds. -/
def read (tree : Tree) (path : Path) : Except ReadFault Text :=
  match tree.find path with
  | .error fault => .error (.cannotOpen fault)
  | .ok (_, .directory) => .error (.cannotOpen .isDirectory)
  | .ok (_, .file bytes) =>
    match decodeUtf8 bytes with
    | .ok text => .ok (unifyBreaks text)
    | .error fault => .error (.notText fault)

/-- The tree with the text of a file replaced. -/
def write (tree : Tree) (path : Path) (text : Text) : Tree :=
  match tree.find path with
  | .ok (names, .file _) =>
    { tree with
      nodes := tree.nodes.map fun (other, node) =>
        if other = names then (other, .file (encodeUtf8 text)) else (other, node) }
  | _ => tree

/-- The endings of the names of LookML files. -/
def sourceEndings : List Text :=
  [".lkml".toList, ".lookml".toList]

/-- The paths below a directory whose names have a LookML ending. -/
def sourcesBelow (tree : Tree) (path : Path) : List Path :=
  match tree.find path with
  | .ok (names, .directory) =>
    tree.nodes.filterMap fun (other, _) =>
      if names.isPrefixOf other ∧ names.length < other.length
          ∧ sourceEndings.any (·.isSuffixOf (other.getLastD [])) then
        some (path.join (other.drop names.length))
      else
        none
  | _ => []

/-- The files that a path stands for: itself, or the sources below it. -/
def sourcesAt (tree : Tree) (path : Path) : Except OpenFault (List Path) := do
  if ← tree.isDirectory path then
    return tree.sourcesBelow path
  else
    return [path]

/-- The files that paths stand for.  Each file comes once, in the order of paths. -/
def sources (tree : Tree) (paths : List Path) : Except OpenFault (List Path) := do
  let found ← paths.mapM tree.sourcesAt
  return found.flatten.eraseDups.mergeSort Path.le

end Tree

namespace ReadFault

/-- Why a source file cannot be read; for an impossible name there is no report. -/
def sourceMessage? (path : Path) : ReadFault → Option Text
  | cannotOpen .nullInName => none
  | cannotOpen .notFound => some (path.text ++ ": file not found".toList)
  | cannotOpen fault => some (path.text ++ ": ".toList ++ fault.message)
  | notText fault =>
    some (path.text ++ ": not valid UTF-8 (".toList ++ fault.reason.message ++ [')'])

end ReadFault

end LookML
