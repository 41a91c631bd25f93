import LookML.Data.Numeral
import LookML.Data.Value
import LookML.Text.IgnoringCase

/-!
# Checked values

Reading typed data out of values.  Readings are lenient where nothing is lost: a
numeral is taken for its number, a word for its truth value.  A record is read
field by field, and all its faults are found, each with the path to it.
-/

namespace LookML.Data

open Text

/-- Why a value does not fit. -/
inductive Mismatch where
  | missing
  | notText
  | notInteger
  | notNumeral
  | fractional
  | notFinite
  | oversized
  | notPositive
  | notFlag
  | notFlagWord
  | notList
  | notSet
  | notTable
  | notRecord
  | notChoice
  deriving Repr, DecidableEq

/-- A mismatch and the path to it. -/
structure Misfit where
  path : List Text
  mismatch : Mismatch
  deriving Repr, DecidableEq

/-- A value that was read, or everything that is wrong with it. -/
inductive Checked (α : Type) where
  | valid (value : α)
  | faulty (misfits : List Misfit)
  deriving Repr, DecidableEq

namespace Checked

variable {α β : Type}

/-- The result of a function on a valid value. -/
def map (function : α → β) : Checked α → Checked β
  | valid value => valid (function value)
  | faulty misfits => faulty misfits

/-- Both parts, or the misfits of both. -/
def apply : Checked (α → β) → Checked α → Checked β
  | valid function, valid value => valid (function value)
  | valid _, faulty misfits => faulty misfits
  | faulty misfits, valid _ => faulty misfits
  | faulty left, faulty right => faulty (left ++ right)

instance : Functor Checked where
  map := map

instance : Seq Checked where
  seq function value := apply function (value ())

/-- A single mismatch at the value itself. -/
def mismatch (mismatch : Mismatch) : Checked α :=
  faulty [⟨[], mismatch⟩]

/-- A reading with the paths of its misfits extended by a step. -/
def within (step : Text) : Checked α → Checked α
  | valid value => valid value
  | faulty misfits => faulty (misfits.map fun misfit => { misfit with path := step :: misfit.path })

/-- All members, or the misfits of all. -/
def all : List (Checked α) → Checked (List α)
  | [] => valid []
  | first :: rest => apply (map List.cons first) (all rest)

end Checked

def yesWords : List Text :=
  ["1".toList, "on".toList, "t".toList, "true".toList, "y".toList, "yes".toList]

def noWords : List Text :=
  ["0".toList, "off".toList, "f".toList, "false".toList, "n".toList, "no".toList]

/-- Whether an integer fits a word of 64 bits. -/
def isWordSized (value : Int) : Bool :=
  -9223372036854775808 ≤ value && value ≤ 9223372036854775807

/-- The integer that a real number is. -/
def wholeNumber (number : Float) : Checked Int :=
  if number.isNaN || number.isInf then .mismatch .notFinite
  else if number.floor != number then .mismatch .fractional
  else if number.abs < 9223372036854775808.0 then .valid number.toInt64.toInt
  else .mismatch .oversized

namespace Value

variable {α : Type}

def asText : Value → Checked Text
  | text value => .valid value
  | _ => .mismatch .notText

/-- Something, unless it is absent. -/
def optional (read : Value → Checked α) : Value → Checked (Option α)
  | absent => .valid none
  | value => (read value).map some

/-- A list whose members are read with their positions as steps. -/
def members (read : Value → Checked α) (values : List Value) : Checked (List α) :=
  .all <| values.zipIdx.map fun (value, index) => (read value).within (ofNat index)

def asList (read : Value → Checked α) : Value → Checked (List α)
  | list values => members read values
  | _ => .mismatch .notList

/-- A list whose order does not count. -/
def asSet (read : Value → Checked α) : Value → Checked (List α)
  | list values => members read values
  | _ => .mismatch .notSet

/-- A table whose values are all read alike. -/
def asKeyed (read : Value → Checked α) : Value → Checked (List (Text × α))
  | table entries =>
    .all <| entries.map fun (key, value) => ((read value).map (key, ·)).within key
  | _ => .mismatch .notTable

/-- A table read as a record. -/
def asRecord (read : List (Text × Value) → Checked α) : Value → Checked α
  | table entries => read entries
  | _ => .mismatch .notRecord

/-- An integer: itself, a truth value as one or zero, a whole real number, or a
numeral. -/
def asInteger : Value → Checked Int
  | integer value => .valid value
  | flag value => .valid (if value then 1 else 0)
  | real value => wholeNumber value
  | text value =>
    match numeral value with
    | .ok value => .valid value
    | .error .malformed => .mismatch .notNumeral
    | .error .oversized => .mismatch .oversized
  | _ => .mismatch .notInteger

def asPositive (value : Value) : Checked { n : Nat // 0 < n } :=
  match asInteger value with
  | .valid value =>
    if h : 0 < value.toNat then .valid ⟨value.toNat, h⟩ else .mismatch .notPositive
  | .faulty misfits => .faulty misfits

/-- A truth value: itself, one or zero, or a word for it in any case. -/
def asFlag : Value → Checked Bool
  | flag value => .valid value
  | integer value =>
    if value = 0 then .valid false
    else if value = 1 then .valid true
    else if isWordSized value then .mismatch .notFlagWord
    else .mismatch .notFlag
  | real value =>
    if value == 0.0 then .valid false
    else if value == 1.0 then .valid true
    else .mismatch .notFlag
  | text value =>
    if yesWords.any (sameAsciiWord · value) then .valid true
    else if noWords.any (sameAsciiWord · value) then .valid false
    else .mismatch .notFlagWord
  | _ => .mismatch .notFlag

end Value

/-- A field of a record, with the value it has when it is left out. -/
def optionalField {α : Type} (entries : List (Text × Value)) (name : String) (default : α)
    (read : Value → Checked α) : Checked α :=
  match entries.lookup name.toList with
  | some value => (read value).within name.toList
  | none => .valid default

/-- A field that a record must have. -/
def requiredField {α : Type} (entries : List (Text × Value)) (name : String)
    (read : Value → Checked α) : Checked α :=
  match entries.lookup name.toList with
  | some value => (read value).within name.toList
  | none => .faulty [⟨[name.toList], .missing⟩]

end LookML.Data
