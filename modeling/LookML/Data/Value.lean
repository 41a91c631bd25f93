import LookML.Data.Real
import LookML.Text.Quoted

/-!
# Values

The data that configuration files and editors hand over: text, numbers, truth
values, dates and times, lists and tables.
-/

namespace LookML.Data

open Text

/-- A day of the calendar. -/
structure Date where
  year : Nat
  month : Nat
  day : Nat
  deriving Repr, DecidableEq

/-- A time of day, to the microsecond. -/
structure Time where
  hour : Nat
  minute : Nat
  second : Nat
  microsecond : Nat
  deriving Repr, DecidableEq

/-- A date, a time, or both, perhaps with an offset from universal time in
minutes. -/
inductive Moment where
  | date (day : Date)
  | time (clock : Time)
  | dateTime (day : Date) (clock : Time) (offset : Option Int)
  deriving Repr, DecidableEq

inductive Value where
  | absent
  | flag (value : Bool)
  | integer (value : Int)
  | real (value : Float)
  | text (value : Text)
  | moment (value : Moment)
  | list (members : List Value)
  | table (entries : List (Text × Value))

def twoDigits (n : Nat) : Text :=
  padLeft '0' 2 (ofNat n)

namespace Date

/-- The date as `year-month-day`. -/
def text (date : Date) : Text :=
  padLeft '0' 4 (ofNat date.year) ++ ['-'] ++ twoDigits date.month ++ ['-']
    ++ twoDigits date.day

end Date

namespace Time

/-- The time as `hour:minute:second`, with microseconds where there are any. -/
def text (time : Time) : Text :=
  twoDigits time.hour ++ [':'] ++ twoDigits time.minute ++ [':'] ++ twoDigits time.second
    ++ (if time.microsecond = 0 then [] else '.' :: padLeft '0' 6 (ofNat time.microsecond))

/-- The parts of the time, without the zeros that seconds and microseconds may end
it with. -/
def parts (time : Time) : List Nat :=
  [time.hour, time.minute]
    ++ (if time.microsecond ≠ 0 then [time.second, time.microsecond]
        else if time.second ≠ 0 then [time.second] else [])

end Time

/-- An offset as `+hours:minutes`. -/
def offsetText (offset : Int) : Text :=
  (if offset < 0 then ['-'] else ['+']) ++ twoDigits (offset.natAbs / 60) ++ [':']
    ++ twoDigits (offset.natAbs % 60)

/-- An offset as it is named inside lists. -/
def offsetName (offset : Int) : Text :=
  if offset = 0 then
    "datetime.timezone.utc".toList
  else
    let seconds := offset * 60
    let span :=
      if seconds < 0 then
        "days=-1, seconds=".toList ++ ofInt (seconds + 86400)
      else
        "seconds=".toList ++ ofInt seconds
    "datetime.timezone(datetime.timedelta(".toList ++ span ++ "))".toList

namespace Moment

def text : Moment → Text
  | date day => day.text
  | time clock => clock.text
  | dateTime day clock offset =>
    day.text ++ [' '] ++ clock.text ++ (offset.map offsetText).getD []

/-- The moment as it is named inside lists. -/
def name : Moment → Text
  | date day =>
    "datetime.date(".toList ++ numbers [day.year, day.month, day.day] ++ [')']
  | time clock => "datetime.time(".toList ++ numbers clock.parts ++ [')']
  | dateTime day clock offset =>
    "datetime.datetime(".toList ++ numbers ([day.year, day.month, day.day] ++ clock.parts)
      ++ (match offset with
          | some offset => ", tzinfo=".toList ++ offsetName offset
          | none => [])
      ++ [')']
where
  /-- Numbers between commas. -/
  numbers (parts : List Nat) : Text :=
    joinWith ", ".toList (parts.map ofNat)

end Moment

namespace Value

mutual

/-- The value as it is shown inside lists and tables, where text is quoted. -/
def shown : Value → Text
  | absent => "None".toList
  | flag value => if value then "True".toList else "False".toList
  | integer value => ofInt value
  | real value => realText value
  | text value => quoted value
  | moment value => value.name
  | list members => ['['] ++ joinWith ", ".toList (shownMembers members) ++ [']']
  | table entries =>
    ['\x7b'] ++ joinWith ", ".toList (shownEntries entries) ++ ['\x7d']

/-- The members of a list as they are shown. -/
def shownMembers : List Value → List Text
  | [] => []
  | member :: members => member.shown :: shownMembers members

/-- The entries of a table as they are shown. -/
def shownEntries : List (Text × Value) → List Text
  | [] => []
  | (key, value) :: entries =>
    (quoted key ++ ": ".toList ++ value.shown) :: shownEntries entries

end

def display : Value → Text
  | text value => value
  | moment value => value.text
  | other => other.shown

end Value

end LookML.Data
