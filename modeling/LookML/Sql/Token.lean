import LookML.Text.Basic

/-!
# Tokens of SQL and markup

Template tags, substitutions, string literals, quoted identifiers and comments
are atoms: nothing inside them is ever changed.  All else is plain text.  A line
is cut into both; an atom that its line leaves open continues on the next line,
except for a comment, which ends with its line.
-/

namespace LookML.Sql

open Text

/-- A part of a line. -/
inductive Token where
  | text (content : Text)
  | atom (content : Text)
  deriving Repr, DecidableEq

namespace Token

def content : Token → Text
  | text content | atom content => content

/-- Tokens with a character of plain text in front of them. -/
def consText (c : Char) : List Token → List Token
  | text content :: tokens => text (c :: content) :: tokens
  | tokens => text [c] :: tokens

end Token

/-- How a kind of atom begins and ends. -/
structure Delimiter where
  opener : Text
  closer : Text
  deriving Repr, DecidableEq

/-- The closer of atoms that end with their line. -/
def lineEnd : Text := ['\n']

/-- The atoms of markup: template tags and substitutions. -/
def markupDelimiters : List Delimiter :=
  [⟨['{', '%'], ['%', '}']⟩, ⟨['{', '{'], ['}', '}']⟩, ⟨['$', '{'], ['}']⟩]

/-- The atoms of SQL: those of markup, comments and quoted text. -/
def sqlDelimiters : List Delimiter :=
  markupDelimiters ++ [⟨['-', '-'], lineEnd⟩, ⟨['\''], ['\'']⟩, ⟨['"'], ['"']⟩]

def delimiters (markup : Bool) : List Delimiter :=
  if markup then markupDelimiters else sqlDelimiters

/-- The text through the first occurrence of a closer, and the rest.  A line holds
no line end, so atoms that end with their line find none. -/
def throughCloser? (closer text : Text) : Option (Text × Text) :=
  if closer = lineEnd then none
  else (cut? closer text).map fun (body, rest) => (body ++ closer, rest)

theorem length_throughCloser? {closer text body rest : Text}
    (found : throughCloser? closer text = some (body, rest)) :
    rest.length ≤ text.length := by
  simp only [throughCloser?] at found
  split at found
  · cases found
  · simp only [Option.map_eq_some_iff, Prod.exists, Prod.mk.injEq] at found
    obtain ⟨_, tail, cut, -, rfl⟩ := found
    exact length_cut? cut

/-- The delimiter that a text begins with. -/
def opening? (delimiters : List Delimiter) (text : Text) : Option Delimiter :=
  delimiters.find? fun delimiter => delimiter.opener.isPrefixOf text

/-- The tokens of a text outside every atom, and the closer of the atom still open
at its end. -/
def scan (delimiters : List Delimiter) : Text → List Token × Option Text
  | [] => ([], none)
  | c :: text =>
    match opening? delimiters (c :: text) with
    | none =>
      let scanned := scan delimiters text
      (Token.consText c scanned.1, scanned.2)
    | some delimiter =>
      match _closed : throughCloser? delimiter.closer
          (text.drop (delimiter.opener.length - 1)) with
      | none =>
        ([.atom (c :: text)],
          if delimiter.closer = lineEnd then none else some delimiter.closer)
      | some (body, rest) =>
        let scanned := scan delimiters rest
        (.atom (delimiter.opener ++ body) :: scanned.1, scanned.2)
  termination_by text => text.length
  decreasing_by
    · simp
    · have := length_throughCloser? _closed
      simp only [List.length_drop] at this
      simp only [List.length_cons]
      omega

/-- The tokens of a line, given the closer of an atom that an earlier line left
open, and the closer of the atom still open at its end. -/
def tokenize (markup : Bool) (pending : Option Text) (line : Text) :
    List Token × Option Text :=
  match pending with
  | none => scan (delimiters markup) line
  | some closer =>
    match throughCloser? closer line with
    | none => ([.atom line], some closer)
    | some (body, rest) =>
      let scanned := scan (delimiters markup) rest
      (.atom body :: scanned.1, scanned.2)

end LookML.Sql
