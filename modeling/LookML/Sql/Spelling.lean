import LookML.Sql.Token
import LookML.Text.Blank
import LookML.Text.IgnoringCase
import LookML.Text.Scan
import LookML.Text.Upper
import LookML.Text.Word

/-!
# The spelling of SQL

Outside atoms, keywords are written in upper case, comparison operators stand
between spaces, and a run of spaces is one space.  A line is spelled token by
token; the blanks around it go, unless an atom reaches across its ends.
-/

namespace LookML.Sql

open Text

/-- Keywords of two words, which any blanks may separate. -/
def phraseKeywords : List (List Text) :=
  [["inner".toList, "join".toList], ["right".toList, "join".toList],
    ["outer".toList, "join".toList], ["group".toList, "by".toList],
    ["order".toList, "by".toList], ["left".toList, "join".toList],
    ["full".toList, "join".toList]]

def wordKeywords : List Text :=
  ["intersect".toList, "distinct".toList, "between".toList, "select".toList,
    "having".toList, "except".toList, "offset".toList, "exists".toList,
    "where".toList, "union".toList, "limit".toList, "count".toList, "from".toList,
    "join".toList, "with".toList, "case".toList, "when".toList, "then".toList,
    "else".toList, "and".toList, "end".toList, "sum".toList, "avg".toList,
    "min".toList, "max".toList, "all".toList, "on".toList, "or".toList,
    "as".toList, "in".toList]

/-- All keywords, those of two words first. -/
def keywords : List (List Text) :=
  phraseKeywords ++ wordKeywords.map fun word => [word]

/-- The characters of words and of dotted paths. -/
def isPathChar (c : Char) : Bool :=
  isWord c || c == '.'

/-- What follows a phrase, in any case and with any blanks between its words. -/
def afterPhrase? : List Text → Text → Option Text
  | [], text => some text
  | [word], text => afterWord? word text
  | word :: words, text => do
      let rest ← afterWord? word text
      if rest.head?.any isBlank then afterPhrase? words (trimLeft rest) else none

/-- A keyword that is not part of a longer word or path, with its length. -/
def keywordAt? (before : Option Char) (text : Text) : Option Nat :=
  if before.any isPathChar then
    none
  else
    keywords.findSome? fun keyword => do
      let rest ← afterPhrase? keyword text
      if rest.head?.any isPathChar then none else some (text.length - rest.length)

/-- The text with every run of blanks written as one space. -/
def squeezeBlanks : Text → Text
  | [] => []
  | c :: text =>
    if isBlank c then
      match text with
      | [] => [' ']
      | next :: _ => if isBlank next then squeezeBlanks text else ' ' :: squeezeBlanks text
    else
      c :: squeezeBlanks text

/-- Write keywords in upper case, with one space between their words. -/
def spellKeywords (text : Text) : Text :=
  substitute
    (fun before rest =>
      (keywordAt? before rest).map fun taken =>
        (upper (squeezeBlanks (rest.take taken)), taken))
    text

/-- The comparison operators, longer ones first. -/
def operators : List Text :=
  ["<=".toList, ">=".toList, "<>".toList, "!=".toList, "==".toList, "=".toList,
    "<".toList, ">".toList]

/-- The characters that operators are made of. -/
def isOperatorChar (c : Char) : Bool :=
  c == '<' || c == '>' || c == '=' || c == '!'

/-- An operator that is not part of a longer run of operator characters and not
the head of an arrow. -/
def operatorAt? (before : Option Char) (text : Text) : Option Text :=
  if before.any fun c => isOperatorChar c || c == '-' then
    none
  else
    operators.find? fun operator =>
      match after? operator text with
      | some rest => !rest.head?.any isOperatorChar
      | none => false

/-- Write a space on each side of operators. -/
def spaceOperators (text : Text) : Text :=
  substitute
    (fun before rest =>
      (operatorAt? before rest).map fun operator =>
        ([' '] ++ operator ++ [' '], operator.length))
    text

/-- Write every run of spaces as one space. -/
def squeezeSpaces : Text → Text
  | [] => []
  | c :: text =>
    if c = ' ' && text.head? == some ' ' then squeezeSpaces text
    else c :: squeezeSpaces text

/-- The spelling of plain SQL text. -/
def spell (text : Text) : Text :=
  squeezeSpaces (spaceOperators (spellKeywords text))

def spellToken : Token → Text
  | .text content => spell content
  | .atom content => content

/-- The spelling of a line, and the closer of the atom still open at its end.
Blanks go from its beginning unless it begins with an atom, and from its end
unless an atom is open there. -/
def spellLine (pending : Option Text) (line : Text) : Text × Option Text :=
  let scanned := tokenize false pending line
  let spelled := scanned.1.flatMap spellToken
  let spelled :=
    match scanned.1 with
    | .text _ :: _ => trimLeft spelled
    | _ => spelled
  (if scanned.2.isNone then trimRight spelled else spelled, scanned.2)

/-- Clauses that a line can begin with to stand at the first level.  The words of
a join before `join` itself are optional. -/
def primaryClauses : List (List Text) :=
  [["select".toList], ["from".toList], ["where".toList], ["group".toList, "by".toList],
    ["order".toList, "by".toList], ["having".toList], ["limit".toList],
    ["union".toList], ["join".toList], ["outer".toList, "join".toList]]
  ++ (["left".toList, "right".toList, "inner".toList, "full".toList, "cross".toList].flatMap
    fun side => [[side, "join".toList], [side, "outer".toList, "join".toList]])

def isPrimaryClause (line : Text) : Bool :=
  primaryClauses.any fun clause =>
    match afterPhrase? clause (trimLeft line) with
    | some rest => !rest.head?.any isWord
    | none => false

def isCommentLine (line : Text) : Bool :=
  let stripped := trimLeft line
  ['-', '-'].isPrefixOf stripped || ['#'].isPrefixOf stripped

end LookML.Sql
