import LookML.Text.Basic

/-!
# Collections keyed by name

Properties, fields and declarations are addressed by name.  Their collections
keep the order of first occurrence, and when a name repeats the first entry is
the one that counts.
-/

namespace LookML

/-- Entries keyed by name, in order of first occurrence. -/
abbrev Keyed (α : Type) := List (Text × α)

namespace Keyed

variable {α : Type}

/-- The first entry of every key, in order. -/
def ofOccurrences : List (Text × α) → Keyed α
  | [] => []
  | (key, value) :: rest =>
    (key, value) :: (ofOccurrences rest).filter fun entry => entry.1 ≠ key

def get? (entries : Keyed α) (key : Text) : Option α :=
  entries.lookup key

/-- The values, in order. -/
def values (entries : Keyed α) : List α :=
  entries.map (·.2)

end Keyed

end LookML
