import LookML.Layout
import LookML.Lint.Rule

/-!
# The log

What a command tells about its work when it is asked to: settings that were loaded,
anomalies, declarations that do not end, and rules it does not know.
-/

namespace LookML.Command

open Text

/-- A line of the log by a part of the program. -/
def logLine (part : String) (message : Text) : Text :=
  "DEBUG lookml_support.core.".toList ++ part.toList ++ ": ".toList ++ message

/-- The log of classifying lines. -/
def lexedLog (lexed : Lexed) : List Text :=
  lexed.anomalies.map fun anomaly =>
    logLine "lexer" ("Parse anomaly: ".toList ++ anomaly.report)

/-- The log of building a document. -/
def documentLog (document : Document) : List Text :=
  match document.items.getLast? with
  | some (.declaration declaration) =>
    if declaration.footer.isNone then
      [logLine "builder"
        ("Declaration '".toList ++ declaration.header.stripped ++ "' is unterminated".toList)]
    else
      []
  | _ => []

/-- The log of reading a text into a document. -/
def readLog (settings : FormatSettings) (text : Text) : List Text :=
  let lexed := Lexed.ofText settings.segmentProperties text
  lexedLog lexed ++ documentLog (.ofLexed lexed)

def formatLog (settings : FormatSettings) (text : Text) : List Text :=
  if text.isEmpty then
    []
  else
    let lexed := Lexed.ofText settings.segmentProperties text
    let document := Document.ofLexed lexed
    readLog settings text ++
      if document.nestingBroken then
        logLine "formatter"
          ("Formatting conservatively: ".toList
            ++ joinWith "; ".toList (document.anomalies.map Anomaly.report))
          :: lexedLog lexed
      else
        []

def lintLog (settings : Settings) (text : Text) : List Text :=
  if settings.lint.enabled then
    let unknown := Lint.unknownIds settings.lint.rules settings.lint.disabledRules
    (if settings.lint.useFallbackReader then [] else readLog settings.format text)
      ++ (if unknown.isEmpty then []
          else
            [logLine "rules"
              ("Skipping unknown rule ids: ".toList ++ joinWith ", ".toList unknown)])
  else
    []

def settingsLog (path : Text) : List Text :=
  [logLine "config" ("Loaded configuration from ".toList ++ path)]

end LookML.Command
