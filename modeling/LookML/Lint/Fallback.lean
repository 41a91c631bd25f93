import LookML.Code
import LookML.Lint.Model
import LookML.Text.IgnoringCase
import LookML.Text.Scan

/-!
# Reading the lint model without structure

A reader that looks for headers and properties by their text alone and does not
follow braces: a declaration ends where a line begins with the next one.  It gives
no lines.
-/

namespace LookML.Lint.Fallback

open Text Code

/-- Characters of the names this reader knows. -/
def isPlainNameChar (c : Char) : Bool :=
  c.isAlphanum || c == '_' || c == '+'

/-- Whether a text begins with a line break, blanks and one of some marks. -/
def startsLineWith (marks : List Text) : Text → Bool
  | '\n' :: text => marks.any fun mark => mark.isPrefixOf (trimLeft text)
  | _ => false

/-- Whether a declaration ends before a text: at the next declaration, or where
only blanks follow. -/
def endsDeclaration (text : Text) : Bool :=
  startsLineWith ["view:".toList, "explore:".toList, "model:".toList] text || allBlank text

def fieldTypes : List Text :=
  ["dimension".toList, "dimension_group".toList, "measure".toList, "filter".toList,
    "parameter".toList]

/-- Whether a field ends before a text: at the next field, or at a closing
brace. -/
def endsField (text : Text) : Bool :=
  startsLineWith (fieldTypes.map (· ++ [':']) ++ [['}']]) text

def endsJoin (text : Text) : Bool :=
  startsLineWith ["join:".toList, ['}']] text

def endsBlock (text : Text) : Bool :=
  startsLineWith [['}']] text

/-- Whether the value of a segment ends before a text: at a line that begins with
a property, or at the end. -/
def endsValue : Text → Bool
  | [] => true
  | '\n' :: text =>
    let word := fun c : Char => c.isAlpha || c == '_'
    let line := trimLeft text
    line.head?.any word && (line.dropWhile word).head? == some ':'
  | _ => false

/-- A block `type: name { body` that begins at a text and ends before `stop`: its
name, its body and its length. -/
def blockAt? (type : Text) (stop : Text → Bool) (before : Option Char) (text : Text) :
    Option ((Text × Text) × Nat) := do
  if before.any isWord then
    none
  else
    let rest ← after? (type ++ [':']) text
    let start := trimLeft rest
    let name := start.takeWhile isPlainNameChar
    if rest.length = start.length ∨ name.isEmpty then
      none
    else
      let body ← after? ['{'] (trimLeft (start.dropWhile isPlainNameChar))
      let (body, rest) ← takeUntil? stop body
      some ((name, body), text.length - rest.length)

/-- All blocks of a type in a text. -/
def blocks (type : Text) (stop : Text → Bool) (text : Text) : List (Text × Text) :=
  findAll (blockAt? type stop) text

/-- The first value that a reader finds behind a mark.  Where `whole` is asked for,
the mark does not continue a word. -/
def valueAfter? {α : Type} (whole : Bool) (mark : Text) (read : Text → Option α)
    (text : Text) : Option α :=
  (search
    (fun before rest =>
      if whole && before.any isWord then none else (after? mark rest).bind read)
    text).map (·.2)

/-- The rest of a line, without the blanks around it.  Blanks before it may
include line breaks; where nothing but blanks follows, one of them must be no line
break. -/
def restOfLine? (text : Text) : Option Text :=
  let value := trimLeft text
  if value.isEmpty then
    if text.any (· ≠ '\n') then some [] else none
  else
    some (trim (value.takeWhile (· ≠ '\n')))

/-- The text between double quotes, which is not empty. -/
def quotedText? (text : Text) : Option Text :=
  match trimLeft text with
  | '"' :: rest =>
    let content := rest.takeWhile (· ≠ '"')
    if content.isEmpty ∨ content.length = rest.length then none else some content
  | _ => none

/-- The value of a segment, up to the next property. -/
def segment? (property text : Text) : Option Text :=
  valueAfter? true (property ++ [':'])
    (fun rest => (takeUntil? endsValue (trimLeft rest)).map fun cut => stripTerminator cut.1)
    text

/-- The first word of a list that a text begins with, in any case. -/
def leadingWord? (words : List Text) (text : Text) : Option Text :=
  words.findSome? fun word =>
    (afterWord? word text).map fun rest => text.take (text.length - rest.length)

/-- Whether the first `primary_key` property says yes. -/
def isPrimaryKey (text : Text) : Bool :=
  let found := search
    (fun _ rest => do
      let rest ← afterWord? "primary_key:".toList rest
      leadingWord? ["yes".toList, "true".toList, "no".toList, "false".toList] (trimLeft rest))
    text
  match found with
  | some (_, word) => sameAsciiWord "yes".toList word || sameAsciiWord "true".toList word
  | none => false

/-- A field with a given body. -/
def field (name body : Text) : FieldSpec where
  name := name
  type := valueAfter? true "type:".toList restOfLine? body
  sql := segment? "sql".toList body
  html := segment? "html".toList body
  primaryKey := isPrimaryKey body
  label := (valueAfter? true "label:".toList quotedText? body).map trim
  description := (valueAfter? false "description:".toList quotedText? body).map trim

/-- The fields of a type in a text. -/
def fields (type text : Text) : Keyed FieldSpec :=
  .ofOccurrences <| (blocks type endsField text).map fun (name, body) => (name, field name body)

/-- The derived table in the body of a view. -/
def derivedTable? (text : Text) : Option DerivedTable :=
  let body? := valueAfter? false "derived_table:".toList
    (fun rest => do
      let body ← after? ['{'] (trimLeft rest)
      let (body, _) ← takeUntil? endsBlock body
      some body)
    text
  body?.map fun body =>
    { sql := some ((segment? "sql".toList body).getD [])
      exploreSource := valueAfter? false "explore_source:".toList
        (fun rest =>
          let name := (trimLeft rest).takeWhile fun c => c.isAlphanum || c == '_'
          if name.isEmpty then none else some name)
        body }

/-- A view with a given body. -/
def view (name body : Text) : ViewSpec where
  name := name
  sqlTableName :=
    match valueAfter? false "sql_table_name:".toList restOfLine? body with
    | some value => if value.isEmpty then none else some (stripTerminator value)
    | none => none
  derivedTable := derivedTable? body
  dimensions := fields "dimension".toList body
  dimensionGroups := fields "dimension_group".toList body
  measures := fields "measure".toList body
  filters := fields "filter".toList body
  parameters := fields "parameter".toList body

def joins (text : Text) : Keyed JoinSpec :=
  .ofOccurrences <| (blocks "join".toList endsJoin text).map fun (name, body) =>
    (name,
      { name
        sqlOn := segment? "sql_on".toList body
        relationship := valueAfter? false "relationship:".toList restOfLine? body
        type := valueAfter? true "type:".toList restOfLine? body })

/-- An explore with a given body. -/
def explore (name body : Text) : ExploreSpec where
  name := name
  viewName := valueAfter? false "view_name:".toList restOfLine? body
  joins := joins body

/-- The text without the double quotes around it. -/
def dropQuotes (text : Text) : Text :=
  ((text.dropWhile (· == '"')).reverse.dropWhile (· == '"')).reverse

/-- All quoted values of the `include` properties in a text. -/
def includes (text : Text) : List Text :=
  findAll
    (fun _ rest => do
      let tail ← after? "include:".toList rest
      let content ← quotedText? tail
      let blanks := tail.length - (trimLeft tail).length
      some (content, "include:".length + blanks + content.length + 2))
    text

/-- A model with a given body. -/
def model (name body : Text) : ModelSpec where
  name := name
  connection :=
    match valueAfter? false "connection:".toList restOfLine? body with
    | some value => if value.isEmpty then none else some (dropQuotes value)
    | none => none
  includes := includes body

def read (text : Text) : Model where
  views := .ofOccurrences <| (blocks "view".toList endsDeclaration text).map
    fun (name, body) => (name, view name body)
  explores := .ofOccurrences <| (blocks "explore".toList endsDeclaration text).map
    fun (name, body) => (name, explore name body)
  models := .ofOccurrences <| (blocks "model".toList endsDeclaration text).map
    fun (name, body) => (name, model name body)

end LookML.Lint.Fallback
