import LookML.Keyed
import LookML.Segment

/-!
# Blocks

The body of a block holds properties and nested blocks.  Only direct children
count: a property or block at a greater depth belongs to the nested block around
it.
-/

namespace LookML

open Code

/-- A nested block: its type and name as far as they can be read, its direct
properties and blocks, and the lines of its braces. -/
structure Block where
  type : Option Text
  name : Option Text
  properties : Keyed Text
  blocks : List Block
  startLine : Nat
  endLine : Option Nat
  deriving Repr

/-- A direct child of a block. -/
inductive Member where
  | property (key value : Text)
  | block (block : Block)
  deriving Repr

namespace Member

/-- The property a child is. -/
def property? : Member → Option (Text × Text)
  | property key value => some (key, value)
  | block _ => none

/-- The block a child is. -/
def block? : Member → Option Block
  | property .. => none
  | block inner => some inner

end Member

namespace Entry

/-- The line of an entry that closes a block with children at `depth`. -/
def closing? (depth : Nat) : Entry → Option Line
  | single line =>
    if line.shape = .blockClose ∧ line.depth = depth then some line else none
  | grouped _ => none

/-- Entries cut at the line that closes the block with children at `depth`: those
before it, that line, and those behind it. -/
def cutAtClose (depth : Nat) : List Entry → List Entry × Option Line × List Entry
  | [] => ([], none, [])
  | entry :: entries =>
    match entry.closing? depth with
    | some line => ([], some line, entries)
    | none =>
      let cut := cutAtClose depth entries
      (entry :: cut.1, cut.2)

theorem length_cutAtClose (depth : Nat) (entries : List Entry) :
    (cutAtClose depth entries).1.length ≤ entries.length ∧
      (cutAtClose depth entries).2.2.length ≤ entries.length := by
  induction entries with
  | nil => simp [cutAtClose]
  | cons entry entries ih =>
    simp only [cutAtClose]
    split <;> simp only [List.length_cons, List.length_nil] <;> omega

end Entry

namespace Member

/-- The children at `depth` of a list of entries, in order. -/
def read (depth : Nat) : List Entry → List Member
  | [] => []
  | .grouped segment :: entries =>
    if segment.depth = depth then
      .property segment.property segment.text :: read depth entries
    else
      read depth entries
  | .single line :: entries =>
    if line.depth = depth then
      match line.shape with
      | .property key value =>
        .property key (stripTerminator value) :: read depth entries
      | .inlineBlock key name _ =>
        .block ⟨some key, some name, [], [], line.number, some line.number⟩ ::
          read depth entries
      | .blockOpen key name =>
        let cut := Entry.cutAtClose (depth + 1) entries
        let members := read (depth + 1) cut.1
        .block
          { type := key
            name := name
            properties := .ofOccurrences (members.filterMap property?)
            blocks := members.filterMap block?
            startLine := line.number
            endLine := cut.2.1.map (·.number) } ::
          read depth cut.2.2
      | _ => read depth entries
    else
      read depth entries
  termination_by entries => entries.length
  decreasing_by
    all_goals have := Entry.length_cutAtClose (depth + 1) entries
    all_goals simp only [List.length_cons]
    all_goals omega

end Member

/-- The direct properties and blocks of a block. -/
structure Body where
  properties : Keyed Text := []
  blocks : List Block := []
  deriving Repr

namespace Body

/-- The children at `depth` of the lines inside a block. -/
def ofLines (depth : Nat) (lines : List Line) : Body :=
  let members := Member.read depth (Entry.group lines)
  { properties := .ofOccurrences (members.filterMap Member.property?)
    blocks := members.filterMap Member.block? }

end Body

namespace Block

def get? (block : Block) (key : Text) : Option Text :=
  block.properties.get? key

def blocksOf (block : Block) (type : Text) : List Block :=
  block.blocks.filter fun inner => inner.type = some type

/-- The first direct block of a type. -/
def firstBlock? (block : Block) (type : Text) : Option Block :=
  (block.blocksOf type).head?

end Block

end LookML
