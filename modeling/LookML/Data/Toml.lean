import LookML.Data.Toml.Scalar

/-!
# TOML documents

A document is a sequence of statements that add values to a tree of tables.  Marks
on keys record which tables can no longer be declared and which values can no
longer be extended.
-/

namespace LookML.Data.Toml

open Text

/-- The entries of a table, in the order of their insertion. -/
abbrev Entries := List (Text × Value)

/-- What can no longer be done to a key: declare it as a table, or extend it. -/
inductive MarkKind where
  | declared
  | frozen
  deriving Repr, DecidableEq

/-- A mark on a key; a deep one holds for all keys below it too. -/
structure Mark where
  key : Key
  kind : MarkKind
  deep : Bool
  deriving Repr, DecidableEq

/-- Whether a key carries a mark of a kind. -/
def isMarked (marks : List Mark) (kind : MarkKind) (key : Key) : Bool :=
  marks.any fun mark =>
    mark.kind = kind && (mark.key = key || (mark.deep && mark.key.isPrefixOf key))

def replaceEntry (key : Text) (value : Value) (entries : Entries) : Entries :=
  entries.map fun entry => if entry.1 = key then (key, value) else entry

/-- Change the table behind a key, which is created where it is missing.  Where
`enterLists` is asked for, a list stands for the last table in it. -/
def changeTable (enterLists : Bool) (change : Entries → Except Cause Entries) :
    Key → Entries → Except Cause Entries
  | [], entries => change entries
  | part :: key, entries =>
    match entries.lookup part with
    | none => do
        let inner ← changeTable enterLists change key []
        .ok (entries ++ [(part, .table inner)])
    | some (.table inner) => do
        let inner ← changeTable enterLists change key inner
        .ok (replaceEntry part (.table inner) entries)
    | some (.list members) =>
      match enterLists, members.getLast? with
      | true, some (.table inner) => do
          let inner ← changeTable enterLists change key inner
          .ok (replaceEntry part (.list (members.dropLast ++ [.table inner])) entries)
      | _, _ => .error .overwritten
    | some _ => .error .overwritten

def insertNew (taken : Cause) (key : Text) (value : Value) (entries : Entries) :
    Except Cause Entries :=
  if (entries.lookup key).isSome then .error taken else .ok (entries ++ [(key, value)])

/-- Append an empty table to the list behind a key. -/
def appendTable (key : Text) (entries : Entries) : Except Cause Entries :=
  match entries.lookup key with
  | none => .ok (entries ++ [(key, .list [.table []])])
  | some (.list members) =>
    .ok (replaceEntry key (.list (members ++ [.table []])) entries)
  | some _ => .error .overwritten

/-- A cause at a place in the text. -/
def atPlace {α : Type} (rest : Text) : Except Cause α → Except Stop α
  | .ok value => .ok value
  | .error cause => stop cause rest

/-- Characters of a key without quotes. -/
def isBareKeyChar (c : Char) : Bool :=
  c.isAlphanum || c == '-' || c == '_'

def readKeyPart (text : Text) : Except Stop (Text × Text) :=
  match text with
  | '\'' :: _ => readLiteralLine text
  | '"' :: _ => readBasicLine text
  | c :: _ =>
    if isBareKeyChar c then
      .ok (text.takeWhile isBareKeyChar, text.dropWhile isBareKeyChar)
    else
      stop .invalidKeyStart text
  | [] => stop .invalidKeyStart text

/-- The parts of a key behind its first one.  `fuel` bounds their number. -/
def readKeyRest : Nat → Text → Except Stop (Key × Text)
  | 0, text => .ok ([], text)
  | fuel + 1, text =>
    match skipGap text with
    | '.' :: text => do
        let (part, rest) ← readKeyPart (skipGap text)
        let (key, rest) ← readKeyRest fuel rest
        .ok (part :: key, rest)
    | text => .ok ([], text)

/-- A key, with the blanks behind it. -/
def readKey (text : Text) : Except Stop (Key × Text) := do
  let (part, rest) ← readKeyPart text
  let (key, rest) ← readKeyRest (text.length + 1) rest
  .ok (part :: key, rest)

/-- The text behind blanks, line breaks and comments.  `fuel` bounds the
comments. -/
def skipSpace : Nat → Text → Except Stop Text
  | 0, text => .ok text
  | fuel + 1, text =>
    match text.dropWhile isGapOrBreak with
    | '#' :: text => do
        let rest ← skipComment ('#' :: text)
        skipSpace fuel rest
    | text => .ok text

/-- A value that is neither a list nor a table. -/
def readScalar (text : Text) : Except Stop (Value × Text) :=
  let asText (read : Except Stop (Text × Text)) : Except Stop (Value × Text) :=
    read.map fun (content, rest) => (.text content, rest)
  if ['"', '"', '"'].isPrefixOf text then asText (readLines '"' text)
  else if ['"'].isPrefixOf text then asText (readBasicLine text)
  else if ['\'', '\'', '\''].isPrefixOf text then asText (readLines '\'' text)
  else if ['\''].isPrefixOf text then asText (readLiteralLine text)
  else
    match after? "true".toList text, after? "false".toList text with
    | some rest, _ => .ok (.flag true, rest)
    | none, some rest => .ok (.flag false, rest)
    | none, none =>
      match moment? text with
      | some (date, moment, rest) =>
        if Date.isValid date then .ok (.moment moment, rest) else stop .invalidDate text
      | none =>
        match time? text with
        | some (time, rest) => .ok (.moment (.time time), rest)
        | none =>
          match based? text with
          | some (value, rest) => .ok (value, rest)
          | none =>
            match decimal? text with
            | some (value, rest) => do
                let value ← atPlace text value
                .ok (value, rest)
            | none =>
              match special? text with
              | some (value, rest) => .ok (value, rest)
              | none => stop .invalidValue text

def isContainer : Value → Bool
  | .list _ | .table _ => true
  | _ => false

/-- Add an entry of a table written on one line. -/
def addInline (rest : Text) (marks : List Mark) (entries : Entries) (key : Key)
    (value : Value) : Except Stop Entries :=
  if isMarked marks .frozen key then
    stop (.immutable key) rest
  else
    let name := key.getLastD []
    atPlace rest
      (changeTable false (insertNew (.duplicateKey name) name value) key.dropLast entries)

mutual

/-- A value.  `fuel` bounds the nesting and the number of members. -/
def readValue : Nat → Text → Except Stop (Value × Text)
  | 0, text => stop .invalidValue text
  | fuel + 1, text =>
    match text with
    | '[' :: rest => do
        let rest ← skipSpace rest.length rest
        match rest with
        | ']' :: rest => .ok (.list [], rest)
        | rest => readMembers fuel [] rest
    | '\x7b' :: rest =>
      match skipGap rest with
      | '\x7d' :: rest => .ok (.table [], rest)
      | rest => readInline fuel [] [] rest
    | text => readScalar text

/-- The members of a list from one of them on. -/
def readMembers : Nat → List Value → Text → Except Stop (Value × Text)
  | 0, _, text => stop .unclosedArray text
  | fuel + 1, members, text => do
      let (member, rest) ← readValue fuel text
      let members := members ++ [member]
      let rest ← skipSpace rest.length rest
      match rest with
      | ']' :: rest => .ok (.list members, rest)
      | ',' :: rest => do
          let rest ← skipSpace rest.length rest
          match rest with
          | ']' :: rest => .ok (.list members, rest)
          | rest => readMembers fuel members rest
      | rest => stop .unclosedArray rest

/-- The entries of a table on one line from one of them on. -/
def readInline : Nat → List Mark → Entries → Text → Except Stop (Value × Text)
  | 0, _, _, text => stop .unclosedTable text
  | fuel + 1, marks, entries, text => do
      let (key, rest) ← readKey text
      match rest with
      | '=' :: rest => do
          let (value, rest) ← readValue fuel (skipGap rest)
          let entries ← addInline rest marks entries key value
          match skipGap rest with
          | '\x7d' :: rest => .ok (.table entries, rest)
          | ',' :: rest =>
            let marks := if isContainer value then ⟨key, .frozen, true⟩ :: marks else marks
            readInline fuel marks entries (skipGap rest)
          | rest => stop .unclosedTable rest
      | rest => stop .expectedEquals rest

end

/-- A document as far as it has been read: its values, the marks on its keys, marks
to be made at the next table, and the table that statements add to. -/
structure Progress where
  entries : Entries := []
  marks : List Mark := []
  pending : List Mark := []
  header : Key := []

namespace Progress

/-- Open a table: `[key]`. -/
def openTable (progress : Progress) (text : Text) : Except Stop (Progress × Text) := do
  let (key, rest) ← readKey (skipGap text)
  if isMarked progress.marks .declared key || isMarked progress.marks .frozen key then
    stop (.declaredTwice key) rest
  else
    let entries ← atPlace rest (changeTable true .ok key progress.entries)
    match rest with
    | ']' :: rest =>
      let marks := ⟨key, .declared, false⟩ :: progress.marks
      .ok ({ progress with entries, marks, header := key }, rest)
    | rest => stop .expectedTableEnd rest

/-- Open a table of a list: `[[key]]`. -/
def openMember (progress : Progress) (text : Text) : Except Stop (Progress × Text) := do
  let (key, rest) ← readKey (skipGap text)
  if isMarked progress.marks .frozen key then
    stop (.immutable key) rest
  else
    let entries ← atPlace rest
      (changeTable true (appendTable (key.getLastD [])) key.dropLast progress.entries)
    match after? [']', ']'] rest with
    | some rest =>
      let kept := progress.marks.filter fun mark => !key.isPrefixOf mark.key
      .ok ({ progress with
        entries, marks := ⟨key, .declared, false⟩ :: kept, header := key }, rest)
    | none => stop .expectedArrayEnd rest

/-- The tables that a dotted key passes through. -/
def passed (header key : Key) : List Key :=
  (List.range (key.length - 1)).map fun index => header ++ key.take (index + 1)

/-- Add a value: `key = value`. -/
def assign (progress : Progress) (text : Text) : Except Stop (Progress × Text) := do
  let (key, rest) ← readKey text
  match rest with
  | '=' :: rest => do
      let (value, rest) ← readValue (2 * text.length + 2) (skipGap rest)
      let tables := passed progress.header key
      let parent := progress.header ++ key.dropLast
      match tables.find? (isMarked progress.marks .declared) with
      | some table => stop (.redefined table) rest
      | none =>
        if isMarked progress.marks .frozen parent then
          stop (.immutable parent) rest
        else
          let entries ← atPlace rest
            (changeTable true (insertNew .overwritten (key.getLastD []) value) parent
              progress.entries)
          let marks :=
            if isContainer value then
              ⟨progress.header ++ key, .frozen, true⟩ :: progress.marks
            else
              progress.marks
          let pending := tables.map (⟨·, .declared, false⟩) ++ progress.pending
          .ok ({ progress with entries, marks, pending }, rest)
  | rest => stop .expectedEquals rest

/-- The marks that were to be made are made. -/
def settle (progress : Progress) : Progress :=
  { progress with marks := progress.pending ++ progress.marks, pending := [] }

/-- A statement, from its first character on. -/
def statement (progress : Progress) (text : Text) : Except Stop (Progress × Text) :=
  match text with
  | '[' :: '[' :: rest => progress.settle.openMember rest
  | '[' :: rest => progress.settle.openTable rest
  | '#' :: _ => .ok (progress, text)
  | c :: _ =>
    if isBareKeyChar c || c == '"' || c == '\'' then progress.assign text
    else stop .invalidStatement text
  | [] => .ok (progress, text)

/-- All statements from a text on.  `fuel` bounds their number. -/
def statements : Nat → Progress → Text → Except Stop Progress
  | 0, progress, _ => .ok progress
  | fuel + 1, progress, text =>
    match skipGap text with
    | [] => .ok progress
    | '\n' :: rest => statements fuel progress rest
    | text => do
        let (progress, rest) ← progress.statement text
        let rest ← skipComment (skipGap rest)
        match rest with
        | [] => .ok progress
        | '\n' :: rest => statements fuel progress rest
        | rest => stop .expectedLineEnd rest

end Progress

def read (document : Text) : Except Fault Entries :=
  match Progress.statements (document.length + 1) {} document with
  | .ok progress => .ok progress.entries
  | .error stop => .error (.ofStop document stop)

end LookML.Data.Toml
