import LookML.Data.Toml
import LookML.File.Tree
import LookML.Report
import LookML.Settings.Read

/-!
# Loading settings

Settings come from a file `lookml.toml`, or from the table `tool.lookml` of a file
`pyproject.toml`.  The nearest such file at or above a place counts.
-/

namespace LookML

open Data Text

/-- Why settings cannot be loaded. -/
inductive LoadFault where
  | unreadable (path : Path) (fault : OpenFault)
  /-- A path has a name that cannot be one. -/
  | unnameable (fault : OpenFault)
  | notText (fault : Utf8Fault)
  | malformed (path : Path) (document : Text) (fault : Toml.Fault)
  | invalid (source : Option Text) (fault : SettingsFault)
  /-- A decimal integer has too many digits. -/
  | oversizedInteger
  /-- The place of the settings in a project file is taken by something that has no
  entries. -/
  | noEntries
  /-- The place of the tools in a project file is taken by something that holds
  nothing. -/
  | noMembers
  deriving Repr, DecidableEq

namespace LoadFault

/-- The snippet of a document up to a line. -/
def snippet (document : Text) (line : Nat) : Text :=
  let first := max 1 (line - 2)
  joinWith ['\n'] (((rows document).take line).drop (first - 1))

/-- The report to the user; some faults have none. -/
def report? : LoadFault → Option Report
  | unreadable path fault =>
    let message := "Cannot read configuration: [Errno ".toList ++ ofNat fault.number
      ++ "] ".toList ++ fault.message ++ ": ".toList ++ quoted path.text
    some (.ofFile message (some path.text) none none none)
  | malformed path document fault =>
    let message := "Malformed TOML: ".toList ++ fault.message
    let line := fault.place.map fun place => (place.1 : Int)
    let column := fault.place.map fun place => (place.2 : Int)
    some (.ofFile message (some path.text) line column
      (fault.place.map fun place => snippet document place.1))
  | invalid source _ =>
    some (.ofFile "Invalid configuration".toList source none none none)
  | unnameable _ | notText _ | oversizedInteger | noEntries | noMembers => none

end LoadFault

def settingsFile : Text := "lookml.toml".toList

def projectFile : Text := "pyproject.toml".toList

namespace Settings

/-- The data of a file. -/
def readData (tree : Tree) (path : Path) : Except LoadFault Toml.Entries :=
  match tree.read path with
  | .error (.cannotOpen .nullInName) => .error (.unnameable .nullInName)
  | .error (.cannotOpen fault) => .error (.unreadable path fault)
  | .error (.notText fault) => .error (.notText fault)
  | .ok document =>
    match Toml.read document with
    | .ok entries => .ok entries
    | .error ⟨.oversizedInteger, _⟩ => .error .oversizedInteger
    | .error fault => .error (.malformed path document fault)

/-- The entries of a table that may be missing. -/
def tableIn (entries : Toml.Entries) (name : String) : Except LoadFault Toml.Entries :=
  match entries.lookup name.toList with
  | none => .ok []
  | some (.table entries) => .ok entries
  | some _ => .error .noEntries

/-- The entries that hold the settings in the data of a file. -/
def settingsEntries (path : Path) (entries : Toml.Entries) : Except LoadFault Toml.Entries :=
  if path.name = projectFile then do
    tableIn (← tableIn entries "tool") "lookml"
  else
    .ok entries

/-- Settings from data, with their source for reports. -/
def ofData (source : Option Text) (entries : Toml.Entries) : Except LoadFault Settings :=
  match ofEntries entries with
  | .ok settings => .ok settings
  | .error fault => .error (.invalid source fault)

def load (tree : Tree) (path : Path) : Except LoadFault Settings := do
  let entries ← settingsEntries path (← readData tree path)
  ofData (some path.text) entries

/-- Whether a file of tools holds settings.  A text or a list may name them. -/
def namesTool : Option Value → Except LoadFault Bool
  | none => .ok false
  | some (.table entries) => .ok (entries.lookup "lookml".toList).isSome
  | some (.text value) => .ok (occursIn "lookml".toList value)
  | some (.list members) =>
    .ok (members.any fun
      | .text value => value == "lookml".toList
      | _ => false)
  | some _ => .error .noMembers

/-- Whether a project file holds settings.  One that cannot be opened or is no TOML
holds none. -/
def holdsSettings (tree : Tree) (path : Path) : Except LoadFault Bool :=
  match readData tree path with
  | .ok entries => namesTool (entries.lookup "tool".toList)
  | .error (.unreadable ..) | .error (.malformed ..) => .ok false
  | .error fault => .error fault

/-- Whether a path leads to a file. -/
def isFile (tree : Tree) (path : Path) : Except LoadFault Bool :=
  match tree.isFile path with
  | .ok found => .ok found
  | .error fault => .error (.unnameable fault)

/-- The first file with settings in a list of directories.  In each of them the
settings file comes before the project file. -/
def findIn (tree : Tree) : List (List Text) → Except LoadFault (Option Path)
  | [] => .ok none
  | directory :: directories => do
      let settings := Path.fromRoot (directory ++ [settingsFile])
      let project := Path.fromRoot (directory ++ [projectFile])
      if ← isFile tree settings then
        return some settings
      else if ← isFile tree project then
        if ← holdsSettings tree project then return some project
        else findIn tree directories
      else
        findIn tree directories

/-- The nearest file with settings at or above a path. -/
def find (tree : Tree) (start : Path) : Except LoadFault (Option Path) := do
  let names := start.resolve tree.here
  if start.text.contains '\x00' then
    throw (.unnameable .nullInName)
  else if ← isFile tree (.fromRoot names) then
    findIn tree (Path.ancestors names.dropLast)
  else
    findIn tree (Path.ancestors names)

end Settings

end LookML
