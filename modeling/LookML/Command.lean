import LookML.Command.Arguments
import LookML.Command.Log
import LookML.Display.Escape
import LookML.Display.Markup
import LookML.Display.Table
import LookML.Document.Summary
import LookML.Layout.Width
import LookML.Lint.Record
import LookML.Lint.Result
import LookML.Settings.Load

/-!
# Commands

The commands `format`, `lint` and `inspect` as functions from arguments, standard
input and a file tree to what they print, the tree they leave and their exit code.
-/

namespace LookML.Command

open Text Data Display

def version : Text := "0.1.0".toList

/-- What a command has done so far. -/
structure Progress where
  tree : Tree
  output : Text := []
  log : List Text := []
  deriving Repr, DecidableEq

namespace Progress

def printRaw (progress : Progress) (text : Text) : Progress :=
  { progress with output := progress.output ++ text }

/-- Print a line without escape sequences. -/
def print (progress : Progress) (line : Text) : Progress :=
  progress.printRaw (withoutEscapes line ++ ['\n'])

/-- Print lines without escape sequences. -/
def printAll (progress : Progress) (lines : List Text) : Progress :=
  lines.foldl print progress

/-- Print lines as they are. -/
def printLines (progress : Progress) (lines : List Text) : Progress :=
  progress.printRaw (lines.flatMap (· ++ ['\n']))

def note (progress : Progress) (lines : List Text) : Progress :=
  { progress with log := progress.log ++ lines }

end Progress

/-- Why a command stops. -/
inductive Fault where
  | load (fault : LoadFault)
  | source (path : Path) (fault : ReadFault)
  | name (fault : OpenFault)
  | width (fault : WidthFault)
  | markup (fault : MarkupFault)
  deriving Repr, DecidableEq

namespace Fault

/-- The report to the user; some faults have none. -/
def report? : Fault → Option Text
  | load fault => fault.report?.map Report.text
  | source path fault => fault.sourceMessage? path
  | name _ => none
  | width _ => none
  | markup _ => none

end Fault

/-- A command that goes on from some progress, or stops with what it had done. -/
abbrev Step (α : Type) := Progress → Except (Fault × Progress) (α × Progress)

/-- How a command ended. -/
inductive Ending where
  | usage (fault : UsageFault)
  | stopped (fault : Fault)
  | done (success : Bool)
  deriving Repr, DecidableEq

/-- All that a command leaves. -/
structure Outcome where
  ending : Ending
  progress : Progress
  verbose : Bool := false
  deriving Repr, DecidableEq

namespace Outcome

def exitCode (outcome : Outcome) : Nat :=
  match outcome.ending with
  | .usage _ => 2
  | .stopped _ => 1
  | .done success => if success then 0 else 1

/-- What is printed to standard error: the log where it is asked for, and the
report of a fault. -/
def errors (outcome : Outcome) : Text :=
  let log := if outcome.verbose then outcome.progress.log else []
  let report :=
    match outcome.ending with
    | .usage fault => ["Error: ".toList ++ fault.message]
    | .stopped fault =>
      (fault.report?.map fun report => withoutEscapes ("Error: ".toList ++ report)).toList
    | .done _ => []
  (log ++ report).flatMap (· ++ ['\n'])

end Outcome

/-- The path that stands for standard input. -/
def standardInput : Path := .fromHere [['-']]

def loadSettings (path : Path) : Step Settings := fun progress =>
  let entries := do Settings.settingsEntries path (← Settings.readData progress.tree path)
  match entries with
  | .error fault => .error (.load fault, progress)
  | .ok entries =>
    let progress := progress.note (settingsLog path.text)
    match Settings.ofData (some path.text) entries with
    | .ok settings => .ok (settings, progress)
    | .error fault => .error (.load fault, progress)

/-- The settings of a command: those of the file it names, or of the nearest one
above its first path. -/
def resolveSettings (named : Option Path) (paths : List Path) : Step Settings := fun progress =>
  match named with
  | some path => loadSettings path progress
  | none =>
    let start :=
      match paths with
      | first :: _ => if first = standardInput then .fromHere [] else first
      | [] => .fromHere []
    match Settings.find progress.tree start with
    | .error fault => .error (.load fault, progress)
    | .ok none => .ok ({}, progress)
    | .ok (some path) => loadSettings path progress

/-- The text of a file or of standard input. -/
def readSource (input : Text) (path : Path) : Step Text := fun progress =>
  if path = standardInput then .ok (input, progress)
  else
    match progress.tree.read path with
    | .ok text => .ok (text, progress)
    | .error fault => .error (.source path fault, progress)

/-- The files that the paths of a command stand for. -/
def expand (paths : List Path) : Step (List Path) := fun progress =>
  if paths = [standardInput] then .ok (paths, progress)
  else
    match progress.tree.sources paths with
    | .ok paths => .ok (paths, progress)
    | .error fault => .error (.name fault, progress)

/-- Do something for each path. -/
def forEach {α : Type} (step : Path → Step α) : List Path → Step (List α)
  | [], progress => .ok ([], progress)
  | path :: paths, progress => do
      let (result, progress) ← step path progress
      let (results, progress) ← forEach step paths progress
      .ok (result :: results, progress)

/-- The settings of the formatter with the options of the command line. -/
def FormatOptions.adjust (options : FormatOptions) (settings : FormatSettings) :
    FormatSettings :=
  let width := options.indent.getD ⟨settings.indentWidth, settings.indentWidth_pos⟩
  { settings with
    indentWidth := width.val
    indentWidth_pos := width.property
    useSpaces := settings.useSpaces && !options.tabs
    groupFields := settings.groupFields && !options.keepUngrouped
    sortFields := settings.sortFields && !options.keepUnsorted }

/-- Format one file; the result tells whether it was not formatted already. -/
def formatFile (settings : FormatSettings) (check : Bool) (input : Text) (path : Path) :
    Step Bool := fun progress => do
  let (text, progress) ← readSource input path progress
  let progress := progress.note (formatLog settings text)
  match settings.writtenText text with
  | .error fault => .error (.width fault, progress)
  | .ok formatted =>
    if path = standardInput then
      .ok (false, progress.printRaw formatted)
    else if formatted = text then
      .ok (false, progress)
    else if check then
      .ok (true, progress.print ("would reformat ".toList ++ path.text))
    else
      let progress := { progress with tree := progress.tree.write path formatted }
      .ok (true, progress.print ("reformatted ".toList ++ path.text))

def format (options : FormatOptions) (input : Text) : Step Bool := fun progress => do
  let (settings, progress) ← resolveSettings options.settings options.paths progress
  let settings := FormatOptions.adjust options settings.format
  let (paths, progress) ← expand options.paths progress
  let (changed, progress) ← forEach (formatFile settings options.check input) paths progress
  .ok (!(options.check && changed.any id), progress)

/-- The settings of the linter with the options of the command line. -/
def LintOptions.adjust (options : LintOptions) (settings : LintSettings) : LintSettings :=
  { settings with
    rules :=
      if options.rules.isEmpty then settings.rules
      else LintSettings.normalizeIds options.rules
    disabledRules := settings.disabledRules ++ LintSettings.normalizeIds options.disabled }

def lintFile (settings : Settings) (input : Text) (path : Path) :
    Step (Text × List Lint.Violation) := fun progress => do
  let (text, progress) ← readSource input path progress
  let progress := progress.note (lintLog settings text)
  let name := if path = standardInput then "<stdin>".toList else path.text
  .ok ((name, (Lint.lintText settings text).violations), progress)

/-- Where a violation is: file and line, counted from one. -/
def location (file : Text) (violation : Lint.Violation) : Text :=
  file ++ [':'] ++ ofInt (violation.line.getD 0 + 1)

/-- A violation for people to read. -/
def humanLine (file : Text) (violation : Lint.Violation) : Text :=
  location file violation ++ ": ".toList
    ++ violation.severity.word.toList.map Char.toUpper ++ ": [".toList ++ violation.rule
    ++ "] ".toList ++ violation.message

/-- A violation for editors to read. -/
def editorLine (file : Text) (violation : Lint.Violation) : Text :=
  location file violation ++ ":1: ".toList ++ violation.severity.word.toList ++ ": [".toList
    ++ violation.rule ++ "] ".toList ++ violation.message

/-- Violations with their files, in the form asked for. -/
def violationLines (output : LintOutput) (found : List (Text × Lint.Violation)) : List Text :=
  match output with
  | .human =>
    found.map (fun (file, violation) => humanLine file violation)
      ++ (if found.isEmpty then ["OK: no problems found.".toList]
          else [[], ofNat found.length ++ " problem(s) found.".toList])
  | .editor => found.map fun (file, violation) => editorLine file violation
  | .json =>
    [(Value.list (found.map fun (file, violation) =>
      .table (("file".toList, .text file) :: violation.entries))).json]

/-- Results of which the last one of a file counts, at the place of its first. -/
def lastResults {α : Type} (results : List (Text × α)) : List (Text × α) :=
  (results.map (·.1)).eraseDups.filterMap fun file =>
    (results.reverse.lookup file).map (file, ·)

def lint (options : LintOptions) (input : Text) : Step Bool := fun progress => do
  let (settings, progress) ← resolveSettings options.settings options.paths progress
  let settings := { settings with lint := LintOptions.adjust options settings.lint }
  let (paths, progress) ← expand options.paths progress
  let (results, progress) ← forEach (lintFile settings input) paths progress
  let found := (lastResults results).flatMap fun (file, violations) => violations.map (file, ·)
  let failed := found.any (fun (_, violation) => violation.severity = .error)
    || (options.strict && !found.isEmpty)
  .ok (!failed, progress.printAll (violationLines options.output found))

/-- The lines from a first one to the last one, if that is known. -/
def lineSpan (start : Nat) (stop : Option Nat) : Text :=
  ofNat (start + 1) ++ ['-'] ++ ((stop.map fun stop => ofNat (stop + 1)).getD ['?'])

def declarationTable (declaration : Declaration) : Except MarkupFault Table := do
  let title ← shown (declaration.typeName ++ ": ".toList ++ declaration.name)
  let rows ← declaration.fields.mapM fun field =>
    [field.typeName, field.name, (field.get? "type".toList).getD [],
      lineSpan field.startLine field.endLine].mapM shown
  return {
    title := trimRight title
    heading := ["Kind".toList, "Name".toList, "Type".toList, "Lines".toList]
    rows }

/-- What is said below the table of a declaration. -/
def declarationNote (declaration : Declaration) : Text :=
  "lines ".toList ++ lineSpan declaration.startLine declaration.endLine ++ ", ".toList
    ++ ofNat declaration.fields.length ++ " field(s), ".toList
    ++ ofNat declaration.body.blocks.length ++ " block(s)".toList

/-- Print lines that can be shown. -/
def printShown (lines : Except MarkupFault (List Text)) : Step Unit := fun progress =>
  match lines with
  | .ok lines => .ok ((), progress.printLines lines)
  | .error fault => .error (.markup fault, progress)

/-- Print everything in order, up to the first that cannot be shown. -/
def printEach : List (Except MarkupFault (List Text)) → Step Unit
  | [], progress => .ok ((), progress)
  | lines :: others, progress => do
      let ((), progress) ← printShown lines progress
      printEach others progress

/-- What is printed about a document, part by part. -/
def documentParts (document : Document) : List (Except MarkupFault (List Text)) :=
  (if document.declarations.isEmpty then [.ok ["No declarations found.".toList]] else [])
    ++ document.declarations.flatMap (fun declaration =>
        [(declarationTable declaration).map Table.lines,
          .ok [declarationNote declaration, []]])
    ++ document.anomalies.map fun anomaly =>
        (shown anomaly.report).map fun report => ["warning: ".toList ++ report]

def inspect (options : InspectOptions) (input : Text) : Step Bool := fun progress => do
  let (settings, progress) ← resolveSettings options.settings [options.path] progress
  let (text, progress) ← readSource input options.path progress
  let progress := progress.note (readLog settings.format text)
  let document := Document.ofText settings.format.segmentProperties text
  if options.json then
    .ok (true, progress.print document.summary.json)
  else
    let ((), progress) ← printEach (documentParts document) progress
    .ok (true, progress)

/-- What the program says about itself. -/
def helpLines : List Text :=
  ["Usage: lookml [--verbose] COMMAND [OPTIONS] PATHS...".toList,
    [],
    "  format   Normalize spacing and SQL, group and sort fields".toList,
    "  lint     Check primary keys, join references and cross-view references".toList,
    "  inspect  Show the structural model of a file".toList]

def perform (request : Request) (input : Text) : Step Bool := fun progress =>
  match request with
  | .version => .ok (true, progress.print ("lookml-support version ".toList ++ version))
  | .help => .ok (true, progress.printAll helpLines)
  | .format options => format options input progress
  | .lint options => lint options input progress
  | .inspect options => inspect options input progress

def run (arguments : List Text) (input : Text) (tree : Tree) : Outcome :=
  match requestOf arguments with
  | .error fault => { ending := .usage fault, progress := { tree } }
  | .ok (request, verbose) =>
    match perform request (unifyBreaks input) { tree } with
    | .ok (success, progress) => { ending := .done success, progress, verbose }
    | .error (fault, progress) => { ending := .stopped fault, progress, verbose }

end LookML.Command
