import LookML.Text.Basic

/-!
# Case mappings

A case mapping is a table of runs, each of which shifts evenly spaced code
points by one amount, and a table of the few characters that map to a sequence.
-/

namespace LookML.Text

/-- The code points `first`, `first + stride`, ... up to `last`, mapped to code
points at the same distance from `target`. -/
structure CaseRun where
  first : Nat
  last : Nat
  stride : Nat
  target : Nat
  deriving Repr, DecidableEq

namespace CaseRun

/-- The run of a single code point. -/
def single (code target : Nat) : CaseRun :=
  ⟨code, code, 1, target⟩

/-- The image of a code point that lies on the run. -/
def map? (run : CaseRun) (code : Nat) : Option Nat :=
  if run.first ≤ code ∧ code ≤ run.last ∧ (code - run.first) % run.stride = 0 then
    some (run.target + (code - run.first))
  else
    none

/-- The run that leads back. -/
def inverse (run : CaseRun) : CaseRun :=
  ⟨run.target, run.target + (run.last - run.first), run.stride, run.first⟩

end CaseRun

/-- The image of a character under a case mapping; a character in neither table
maps to itself. -/
def mapCase (runs : List CaseRun) (sequences : List (Nat × List Nat)) (c : Char) :
    Text :=
  match sequences.lookup c.toNat with
  | some codes => codes.map Char.ofNat
  | none =>
    match runs.findSome? fun run => run.map? c.toNat with
    | some code => [Char.ofNat code]
    | none => [c]

end LookML.Text
