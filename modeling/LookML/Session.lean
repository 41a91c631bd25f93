import LookML.Layout.Width
import LookML.Lint.Action

/-!
# Sessions

An editor keeps a text, settings, and the violations found last.  Violations are
remembered across edits, so that actions are offered for the text as it is now.
-/

namespace LookML

open Text

/-- The member of a list at an index; negative indices count from the end. -/
def memberAt? {α : Type} (members : List α) (index : Int) : Option α :=
  let position := if index < 0 then index + members.length else index
  if position < 0 then none else members[position.toNat]?

/-- Why a step of a session fails. -/
inductive SessionFault where
  | noAction
  | width (fault : WidthFault)
  deriving Repr, DecidableEq

/-- The state of an editor. -/
structure Session where
  text : Text
  settings : Settings := {}
  violations : List Lint.Violation := []
  deriving Repr, DecidableEq

namespace Session

/-- Replace every occurrence of a text. -/
def replace (session : Session) (old new : Text) : Session :=
  { session with text := replaceAll old new session.text }

def formatEdits (session : Session) : Except WidthFault (List Edit) :=
  session.settings.format.writtenEdits session.text

/-- Make edits one after another.  An editor that edits a text keeps it with line feeds
between its lines. -/
def edit (session : Session) (edits : List Edit) : Session :=
  { session with
    text := edits.foldl (fun text edit => edit.apply (joinLines text.splitBreaks)) session.text }

def lint (session : Session) : Lint.Result :=
  Lint.lintText session.settings session.text

def remember (session : Session) (violations : List Lint.Violation) : Session :=
  { session with violations }

/-- The actions for a violation in the text. -/
def actionsFor (session : Session) (violation : Lint.Violation) :
    Except WidthFault (List Lint.Action) :=
  session.settings.format.writtenUnit.map fun unit => Lint.actions violation session.text unit

/-- The actions for every remembered violation. -/
def allActions (session : Session) : Except WidthFault (List (List Lint.Action)) :=
  session.violations.mapM session.actionsFor

/-- The first action for a remembered violation. -/
def firstAction (session : Session) (index : Int) : Except SessionFault Lint.Action :=
  match memberAt? session.violations index with
  | none => .error .noAction
  | some violation =>
    match session.actionsFor violation with
    | .error fault => .error (.width fault)
    | .ok [] => .error .noAction
    | .ok (action :: _) => .ok action

end Session

end LookML
