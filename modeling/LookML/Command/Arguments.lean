import LookML.Data.Check
import LookML.File.Path

/-!
# Arguments of the command line

Options may stand anywhere among the arguments of a command.  Long options take
their value behind an equals sign or from the next argument, short ones from the
rest of their argument or from the next one; short options without values can be
written together.  Two dashes end the options.
-/

namespace LookML.Command

open Text

/-- Why arguments are refused. -/
inductive UsageFault where
  | unknownOption (name : Text)
  | missingValue (name : Text)
  | unexpectedValue (name : Text)
  | invalidValue (name value : Text)
  | missingArgument (name : Text)
  | unexpectedArgument (value : Text)
  | missingCommand
  | unknownCommand (name : Text)
  deriving Repr, DecidableEq

namespace UsageFault

def message : UsageFault → Text
  | unknownOption name => "No such option: ".toList ++ name
  | missingValue name => "Option ".toList ++ name ++ " requires an argument.".toList
  | unexpectedValue name => "Option ".toList ++ name ++ " does not take a value.".toList
  | invalidValue name value =>
    "Invalid value for ".toList ++ name ++ ": ".toList ++ value
  | missingArgument name => "Missing argument ".toList ++ name ++ ['.']
  | unexpectedArgument value => "Got unexpected extra argument (".toList ++ value ++ [')']
  | missingCommand => "Missing command.".toList
  | unknownCommand name => "No such command ".toList ++ name ++ ['.']

end UsageFault

/-- An option: the name it goes by, all its spellings, and whether it takes a
value. -/
structure OptionSpec where
  name : Text
  spellings : List Text
  takesValue : Bool
  deriving Repr, DecidableEq

/-- Options with their values, and the other arguments. -/
structure Parsed where
  options : List (Text × Option Text) := []
  arguments : List Text := []
  deriving Repr, DecidableEq

namespace Parsed

def has (parsed : Parsed) (name : String) : Bool :=
  parsed.options.any fun option => option.1 = name.toList

def values (parsed : Parsed) (name : String) : List Text :=
  parsed.options.filterMap fun option =>
    if option.1 = name.toList then option.2 else none

/-- The last value of an option. -/
def value? (parsed : Parsed) (name : String) : Option Text :=
  (parsed.values name).getLast?

end Parsed

/-- Options read from one argument, and the option that still waits for its
value. -/
abbrev Found := List (Text × Option Text) × Option Text

/-- Short options written together behind a dash. -/
def shortOptions (specs : List OptionSpec) : Text → Except UsageFault Found
  | [] => .ok ([], none)
  | c :: rest =>
    match specs.find? fun spec => spec.spellings.contains ['-', c] with
    | none => .error (.unknownOption ['-', c])
    | some spec =>
      if spec.takesValue then
        if rest.isEmpty then .ok ([], some spec.name)
        else .ok ([(spec.name, some rest)], none)
      else do
        let (found, waiting) ← shortOptions specs rest
        .ok ((spec.name, none) :: found, waiting)

/-- The option of an argument with a long name. -/
def longOption? (specs : List OptionSpec) (argument : Text) : Option (Except UsageFault Found) :=
  let spelling := argument.takeWhile (· ≠ '=')
  let value := if argument.contains '=' then some (argument.drop (spelling.length + 1)) else none
  (specs.find? fun spec => spelling.length ≠ 2 && spec.spellings.contains spelling).map
    fun spec =>
      match spec.takesValue, value with
      | true, some value => .ok ([(spec.name, some value)], none)
      | true, none => .ok ([], some spec.name)
      | false, some _ => .error (.unexpectedValue spelling)
      | false, none => .ok ([(spec.name, none)], none)

/-- The options of an argument that begins with a dash. -/
def optionsIn (specs : List OptionSpec) (argument : Text) : Except UsageFault Found :=
  match longOption? specs argument with
  | some found => found
  | none =>
    if ['-', '-'].isPrefixOf argument then .error (.unknownOption argument)
    else shortOptions specs (argument.drop 1)

/-- Read arguments.  Where options and other arguments do not mix, the first other
argument ends the options. -/
def parseFrom (specs : List OptionSpec) (mixed : Bool) :
    Option Text → List Text → Except UsageFault Parsed
  | some name, [] => .error (.missingValue name)
  | none, [] => .ok {}
  | some name, value :: arguments => do
      let parsed ← parseFrom specs mixed none arguments
      .ok { parsed with options := (name, some value) :: parsed.options }
  | none, argument :: arguments =>
    if argument = ['-', '-'] then
      .ok { arguments }
    else if ['-'].isPrefixOf argument ∧ argument ≠ ['-'] then do
      let (found, waiting) ← optionsIn specs argument
      let parsed ← parseFrom specs mixed waiting arguments
      .ok { parsed with options := found ++ parsed.options }
    else if mixed then do
      let parsed ← parseFrom specs mixed none arguments
      .ok { parsed with arguments := argument :: parsed.arguments }
    else
      .ok { arguments := argument :: arguments }

/-- What `format` is told. -/
structure FormatOptions where
  paths : List Path
  check : Bool
  indent : Option { n : Nat // 0 < n }
  tabs : Bool
  keepUngrouped : Bool
  keepUnsorted : Bool
  settings : Option Path
  deriving Repr, DecidableEq

/-- How `lint` writes violations. -/
inductive LintOutput where
  | human
  | editor
  | json
  deriving Repr, DecidableEq

/-- What `lint` is told. -/
structure LintOptions where
  paths : List Path
  output : LintOutput
  rules : List Text
  disabled : List Text
  strict : Bool
  settings : Option Path
  deriving Repr, DecidableEq

/-- What `inspect` is told. -/
structure InspectOptions where
  path : Path
  json : Bool
  settings : Option Path
  deriving Repr, DecidableEq

/-- What the command line asks for. -/
inductive Request where
  | version
  | help
  | format (options : FormatOptions)
  | lint (options : LintOptions)
  | inspect (options : InspectOptions)
  deriving Repr, DecidableEq

/-- An option without a value. -/
def flagSpec (name : String) (spellings : List String) : OptionSpec :=
  ⟨name.toList, spellings.map String.toList, false⟩

/-- An option with a value. -/
def valueSpec (name : String) (spellings : List String) : OptionSpec :=
  ⟨name.toList, spellings.map String.toList, true⟩

def globalSpecs : List OptionSpec :=
  [flagSpec "version" ["--version", "-V"], flagSpec "verbose" ["--verbose", "-v"],
    flagSpec "help" ["--help"]]

def formatSpecs : List OptionSpec :=
  [flagSpec "check" ["--check"], valueSpec "indent" ["--indent"], flagSpec "tabs" ["--tabs"],
    flagSpec "no-group" ["--no-group"], flagSpec "no-sort" ["--no-sort"],
    valueSpec "config" ["--config", "-c"], flagSpec "help" ["--help"]]

def lintSpecs : List OptionSpec :=
  [valueSpec "format" ["--format", "-f"], valueSpec "rule" ["--rule", "-r"],
    valueSpec "disable" ["--disable", "-d"], flagSpec "strict" ["--strict"],
    valueSpec "config" ["--config", "-c"], flagSpec "help" ["--help"]]

def inspectSpecs : List OptionSpec :=
  [flagSpec "json" ["--json"], valueSpec "config" ["--config", "-c"],
    flagSpec "help" ["--help"]]

/-- The path of the settings that an option names. -/
def settingsPath? (parsed : Parsed) : Option Path :=
  (parsed.value? "config").map Path.ofText

/-- The paths of a command, at least one. -/
def pathsOf (parsed : Parsed) : Except UsageFault (List Path) :=
  if parsed.arguments.isEmpty then .error (.missingArgument "PATHS...".toList)
  else .ok (parsed.arguments.map Path.ofText)

/-- The width of an indentation that an option gives. -/
def indentOf (parsed : Parsed) : Except UsageFault (Option { n : Nat // 0 < n }) :=
  match parsed.value? "indent" with
  | none => .ok none
  | some value =>
    match Data.Value.asPositive (.text value) with
    | .valid width => .ok (some width)
    | .faulty _ => .error (.invalidValue "--indent".toList value)

def formatRequest (arguments : List Text) : Except UsageFault Request := do
  let parsed ← parseFrom formatSpecs true none arguments
  if parsed.has "help" then
    return .help
  let paths ← pathsOf parsed
  let indent ← indentOf parsed
  return .format
    { paths, indent
      check := parsed.has "check"
      tabs := parsed.has "tabs"
      keepUngrouped := parsed.has "no-group"
      keepUnsorted := parsed.has "no-sort"
      settings := settingsPath? parsed }

/-- The output that an option of `lint` names; an unknown name asks for the human
one. -/
def lintOutputOf (parsed : Parsed) : LintOutput :=
  match parsed.value? "format" with
  | some name =>
    if name = "vscode".toList then .editor
    else if name = "json".toList then .json
    else .human
  | none => .human

def lintRequest (arguments : List Text) : Except UsageFault Request := do
  let parsed ← parseFrom lintSpecs true none arguments
  if parsed.has "help" then
    return .help
  let paths ← pathsOf parsed
  return .lint
    { paths
      output := lintOutputOf parsed
      rules := parsed.values "rule"
      disabled := parsed.values "disable"
      strict := parsed.has "strict"
      settings := settingsPath? parsed }

def inspectRequest (arguments : List Text) : Except UsageFault Request := do
  let parsed ← parseFrom inspectSpecs true none arguments
  if parsed.has "help" then
    return .help
  match parsed.arguments with
  | [] => .error (.missingArgument "PATH".toList)
  | [path] =>
    return .inspect
      { path := .ofText path
        json := parsed.has "json"
        settings := settingsPath? parsed }
  | _ :: extra :: _ => .error (.unexpectedArgument extra)

/-- What a command line asks for, and whether it asks for a log. -/
def requestOf (arguments : List Text) : Except UsageFault (Request × Bool) := do
  let parsed ← parseFrom globalSpecs false none arguments
  let verbose := parsed.has "verbose"
  if parsed.has "version" then
    return (.version, verbose)
  if parsed.has "help" then
    return (.help, verbose)
  match parsed.arguments with
  | [] => .error .missingCommand
  | name :: arguments =>
    let request ←
      if name = "format".toList then formatRequest arguments
      else if name = "lint".toList then lintRequest arguments
      else if name = "inspect".toList then inspectRequest arguments
      else .error (.unknownCommand name)
    return (request, verbose)

end LookML.Command
