import LookML.Command

/-!
# The command line program

Reads the files that a command line needs into a file tree, runs the command on it,
writes the files that it changed, and prints its output.
-/

namespace LookML.Main

open Text

/-- A path of the file system as names from the root on. -/
def namesOf (path : String) : List Text :=
  (Path.ofText path.toList).parts

/-- The path of names from the root on. -/
def pathOf (names : List Text) : String :=
  String.ofList (Path.fromRoot names).text

/-- The files and directories of a file system that were read. -/
structure Snapshot where
  files : List (List Text × List UInt8) := []
  directories : List (List Text) := []

def addFile (names : List Text) (snapshot : Snapshot) : IO Snapshot := do
  let path := (← IO.currentDir) / pathOf names
  if (← path.pathExists) && !(← path.isDir) then
    let bytes ← IO.FS.readBinFile path
    return { snapshot with files := (names, bytes.toList) :: snapshot.files }
  else
    return snapshot

/-- Add a file, or a directory with all sources below it. -/
partial def addAll (names : List Text) (snapshot : Snapshot) : IO Snapshot := do
  let path := (← IO.currentDir) / pathOf names
  if ← path.isDir then
    let mut snapshot := { snapshot with directories := names :: snapshot.directories }
    for entry in ← path.readDir do
      let inner := names ++ [entry.fileName.toList]
      if (← entry.path.isDir) || Tree.sourceEndings.any (·.isSuffixOf entry.fileName.toList) then
        snapshot ← addAll inner snapshot
    return snapshot
  else
    addFile names snapshot

/-- The paths that a request names, and the settings it names. -/
def requestPaths : Command.Request → List Path × Option Path
  | .version | .help => ([], none)
  | .format options => (options.paths, options.settings)
  | .lint options => (options.paths, options.settings)
  | .inspect options => ([options.path], options.settings)

/-- The file tree that a request needs. -/
def treeFor (request : Command.Request) : IO Tree := do
  let here := namesOf (← IO.currentDir).toString
  let (paths, settings) := requestPaths request
  let mut snapshot : Snapshot := { directories := [here] }
  for path in paths do
    unless path = Command.standardInput do
      snapshot ← addAll (path.resolve here) snapshot
  match settings with
  | some path => snapshot ← addAll (path.resolve here) snapshot
  | none =>
    let starts := here :: paths.map (Path.resolve here)
    for directory in (starts.flatMap Path.ancestors).eraseDups do
      for name in [settingsFile, projectFile] do
        snapshot ← addFile (directory ++ [name]) snapshot
  return .ofFiles here snapshot.files snapshot.directories

/-- The rest of a stream. -/
partial def readAll (stream : IO.FS.Stream) (read : ByteArray) : IO ByteArray := do
  let bytes ← stream.read 65536
  if bytes.isEmpty then return read else readAll stream (read ++ bytes)

/-- Standard input, if a request reads it. -/
def inputFor (request : Command.Request) : IO Text := do
  if (requestPaths request).1.contains Command.standardInput then
    let bytes ← readAll (← IO.getStdin) .empty
    match decodeUtf8 bytes.toList with
    | .ok text => return text
    | .error fault => throw (IO.userError (String.ofList fault.message))
  else
    return []

/-- Write the files that differ from those before. -/
def writeChanges (before after : Tree) : IO Unit := do
  for (names, node) in after.nodes do
    if before.nodes.lookup names ≠ some node then
      match node with
      | .file bytes => IO.FS.writeBinFile (pathOf names) ⟨bytes.toArray⟩
      | .directory => pure ()

end LookML.Main

open LookML in
def main (arguments : List String) : IO UInt32 := do
  let arguments := arguments.map String.toList
  let (tree, input) ←
    match Command.requestOf arguments with
    | .ok (request, _) => pure (← Main.treeFor request, ← Main.inputFor request)
    | .error _ => pure (.ofFiles [] [] [], [])
  let outcome := Command.run arguments input tree
  Main.writeChanges tree outcome.progress.tree
  IO.print (String.ofList outcome.progress.output)
  IO.eprint (String.ofList outcome.errors)
  return outcome.exitCode.toUInt32
