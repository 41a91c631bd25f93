import LookML.Block
import LookML.Document.Builder
import LookML.Proofs.Brackets
import LookML.Proofs.Grouping
import Mathlib.Data.List.Forall2

/-!
# What a block holds

A block is read by looking for the first closing brace at its depth.  Along a walk, that is
entries whose depths follow headers and braces, the entries up to this brace are those of
the block, and none of them stands at the depth around it.  So the children that are read
are the properties at the depth of children, and the nested blocks are the headers of the
walk, each with what stands around it.
-/

namespace LookML

open Text Code List

variable {entry : Entry}

/-- What a header makes of its block. -/
inductive Role where
  | declaration
  | field
  | block
  deriving Repr, DecidableEq

/-- A block and where it stands: its type and its name, empty if they cannot be read, the
lines of its braces, and the lines of the headers around it, innermost first. -/
structure Site where
  role : Role
  type : Text
  name : Text
  startLine : Nat
  endLine : Option Nat
  around : List Nat
  deriving Repr, DecidableEq

/-- A block with its direct properties. -/
structure BlockNode extends Site where
  properties : Keyed Text
  deriving Repr, DecidableEq

/-- What a line makes of the block it opens: a declaration at depth zero, a field among the
direct children of a declaration, and otherwise a block. -/
def Line.role (line : Line) : Role :=
  if line.depth = 0 then .declaration
  else if line.depth = 1 ∧ OpenDeclaration.opensField line then .field
  else .block

mutual

/-- A block and all blocks in it, given the lines of the headers around it. -/
def Block.nodes (around : List Nat) : Block → List BlockNode
  | ⟨type, name, properties, blocks, startLine, endLine⟩ =>
    ⟨⟨.block, type.getD [], name.getD [], startLine, endLine, around⟩, properties⟩ ::
      allNodes (startLine :: around) blocks

/-- Blocks and all blocks in them. -/
def Block.allNodes (around : List Nat) : List Block → List BlockNode
  | [] => []
  | block :: blocks => block.nodes around ++ allNodes around blocks

end

/-- First occurrences of keys are related if the occurrences are. -/
theorem Keyed.forall₂_ofOccurrences {related : Text × Text → Text × Text → Prop}
    (sameKey : ∀ property other, related property other → other.1 = property.1)
    {properties others : Keyed Text} (all : Forall₂ related properties others) :
    Forall₂ related (ofOccurrences properties) (ofOccurrences others) := by
  induction all with
  | nil => exact .nil
  | @cons property other _ _ here _ ih =>
    obtain ⟨key, value⟩ := property
    obtain ⟨otherKey, otherValue⟩ := other
    obtain rfl : otherKey = key := sameKey _ _ here
    refine .cons here (rel_filter (fun first second same => ?_) ih)
    simp [sameKey _ _ same]

namespace Entry

/-- The line an entry begins with. -/
def opening : Entry → Line
  | single line => line
  | grouped segment => segment.opening

/-- The property that an entry at a depth is, with its value. -/
def property? (depth : Nat) : Entry → Option (Text × Text)
  | single line =>
    if line.depth = depth then
      match line.shape with
      | .property key value => some (key, stripTerminator value)
      | _ => none
    else none
  | grouped segment =>
    if segment.depth = depth then some (segment.property, segment.text) else none

/-- An entry that is no child and closes no block. -/
def Silent : Entry → Prop
  | .single line => line.shape = .blank ∨ line.shape = .comment
  | .grouped _ => False

end Entry

/-- The block of a header, given the entries behind it. -/
def Line.blockNode (line : Line) (around : List Nat) (entries : List Entry) : BlockNode :=
  let cut := Entry.cutAtClose (line.depth + 1) entries
  { role := line.role
    type := line.shape.key?.getD []
    name := line.shape.name?.getD []
    startLine := line.number
    endLine := cut.2.1.map (·.number)
    around := around
    properties := .ofOccurrences (cut.1.filterMap (Entry.property? (line.depth + 1))) }

/-- The block that is written on one line. -/
def Line.inlineNode (line : Line) (around : List Nat) : BlockNode where
  role := line.role
  type := line.shape.key?.getD []
  name := line.shape.name?.getD []
  startLine := line.number
  endLine := some line.number
  around := around
  properties := []

/-- The blocks of entries in source order, given the lines of the headers around them. -/
def Entry.nodes (around : List Nat) : List Entry → List BlockNode
  | [] => []
  | .grouped _ :: entries => nodes around entries
  | .single line :: entries =>
    match line.shape with
    | .blockOpen .. => line.blockNode around entries :: nodes (line.number :: around) entries
    | .inlineBlock .. => line.inlineNode around :: nodes around entries
    | .blockClose => nodes around.tail entries
    | _ => nodes around entries

/-- Entries from one depth to another, which follow headers and closing braces and never
lead below a base. -/
inductive Walk (base : Nat) : Nat → List Entry → Nat → Prop
  | nil (depth : Nat) : Walk base depth [] depth
  | segment {depth final : Nat} {segment : Segment} {entries : List Entry}
      (at_ : segment.depth = depth) (later : Walk base depth entries final) :
      Walk base depth (.grouped segment :: entries) final
  | plain {depth final : Nat} {line : Line} {entries : List Entry} (at_ : line.depth = depth)
      (notOpen : line.shape.opensBlock = false) (notClose : line.shape ≠ .blockClose)
      (later : Walk base depth entries final) : Walk base depth (.single line :: entries) final
  | opens {depth final : Nat} {line : Line} {entries : List Entry} (at_ : line.depth = depth)
      (opens : line.shape.opensBlock = true) (later : Walk base (depth + 1) entries final) :
      Walk base depth (.single line :: entries) final
  | closes {depth final : Nat} {line : Line} {entries : List Entry} (at_ : line.depth = depth + 1)
      (above : base ≤ depth) (closes : line.shape = .blockClose)
      (later : Walk base depth entries final) :
      Walk base (depth + 1) (.single line :: entries) final

section Silence

theorem Entry.Silent.closing? (silent : entry.Silent) (depth : Nat) :
    entry.closing? depth = none := by
  cases entry with
  | grouped => cases silent
  | single line =>
    rcases silent with blank | comment
    · simp [closing?, blank]
    · simp [closing?, comment]

theorem Member.read_silent (silent : entry.Silent) (depth : Nat) (entries : List Entry) :
    read depth (entry :: entries) = read depth entries := by
  cases entry with
  | grouped => cases silent
  | single line =>
    rw [read]
    split
    · rcases silent with blank | comment
      · rw [blank]
      · rw [comment]
    · rfl

end Silence

section Walking

variable {inside : Nat}

variable {base depth final : Nat} {entries rest : List Entry} {line : Line}

theorem Entry.closing?_of_not_close (notClose : line.shape ≠ .blockClose) (depth : Nat) :
    (single line).closing? depth = none := by
  simp [closing?, notClose]

theorem Entry.cutAtClose_cons_none (notHere : entry.closing? depth = none) :
    cutAtClose depth (entry :: entries) =
      (entry :: (cutAtClose depth entries).1, (cutAtClose depth entries).2) := by
  simp [cutAtClose, notHere]

/-- What cutting a walk at the brace of a block around it gives: the walk inside the block up
to the brace and the walk behind it, or no brace at all. -/
inductive CutWalk (base inside depth final : Nat) (entries : List Entry) : Prop
  | closed {inner rest : List Entry} {close : Line}
      (whole : entries = inner ++ .single close :: rest)
      (cut : Entry.cutAtClose (inside + 1) entries = (inner, some close, rest))
      (closes : close.shape = .blockClose) (within : Walk (inside + 1) depth inner (inside + 1))
      (behind : Walk base inside rest final) : CutWalk base inside depth final entries
  | unclosed (cut : Entry.cutAtClose (inside + 1) entries = (entries, none, []))
      (within : Walk (inside + 1) depth entries final) : CutWalk base inside depth final entries

theorem CutWalk.cons {next : Nat} (cutWalk : CutWalk base inside next final entries)
    (notHere : entry.closing? (inside + 1) = none)
    (onwards : ∀ {others last}, Walk (inside + 1) next others last →
      Walk (inside + 1) depth (entry :: others) last) :
    CutWalk base inside depth final (entry :: entries) := by
  cases cutWalk with
  | closed whole cut closes within behind =>
    refine .closed (by rw [whole]; rfl) ?_ closes (onwards within) behind
    rw [Entry.cutAtClose_cons_none notHere, cut]
  | unclosed cut within =>
    refine .unclosed ?_ (onwards within)
    rw [Entry.cutAtClose_cons_none notHere, cut]

theorem Walk.cut (walk : Walk base depth entries final) (above : base ≤ inside)
    (deep : inside < depth) : CutWalk base inside depth final entries := by
  induction walk with
  | nil depth => exact .unclosed rfl (.nil depth)
  | segment at_ _ ih => exact (ih deep).cons rfl (.segment at_)
  | plain at_ notOpen notClose _ ih =>
    exact (ih deep).cons (Entry.closing?_of_not_close notClose _) (.plain at_ notOpen notClose)
  | opens at_ opens _ ih =>
    have notHere := Entry.closing?_of_not_close (Shape.ne_blockClose_of_opens opens)
    exact (ih (by omega)).cons (notHere _) (.opens at_ opens)
  | @closes depth final line entries at_ _ closes later ih =>
    by_cases here : depth = inside
    · subst here
      have found : (Entry.single line).closing? (depth + 1) = some line := by
        simp [Entry.closing?, closes, at_]
      exact .closed rfl (by simp [Entry.cutAtClose, found]) closes (.nil _) later
    · have notHere : (Entry.single line).closing? (inside + 1) = none := by
        simp [Entry.closing?, at_, here]
      exact (ih (by omega)).cons notHere (.closes at_ (by omega) closes)

/-- On a walk no entry stands below the base. -/
theorem Walk.le_depth (walk : Walk base depth entries final) (above : base ≤ depth) :
    ∀ entry ∈ entries, base ≤ entry.opening.depth := by
  induction walk with
  | nil => simp
  | segment at_ _ ih | plain at_ _ _ _ ih =>
    refine forall_mem_cons.mpr ⟨?_, ih above⟩
    rw [← at_] at above
    exact above
  | opens at_ _ _ ih =>
    refine forall_mem_cons.mpr ⟨?_, ih (by omega)⟩
    rw [← at_] at above
    exact above
  | closes at_ within _ _ ih =>
    refine forall_mem_cons.mpr ⟨?_, ih within⟩
    rw [← at_] at above
    exact above

theorem Entry.property?_of_depth (other : entry.opening.depth ≠ depth) :
    entry.property? depth = none := by
  cases entry with
  | single line | grouped segment => exact if_neg other

/-- A walk above a depth holds no properties at that depth. -/
theorem Walk.filterMap_property? (walk : Walk base depth entries final) (above : base ≤ depth)
    {below : Nat} (less : below < base) : entries.filterMap (Entry.property? below) = [] := by
  apply filterMap_eq_nil_iff.mpr
  intro entry member
  have := walk.le_depth above entry member
  exact Entry.property?_of_depth (by omega)

section Nodes

variable {around : List Nat}

theorem Entry.nodes_of_opens (opens : line.shape.opensBlock = true) :
    nodes around (.single line :: entries) =
      line.blockNode around entries :: nodes (line.number :: around) entries := by
  obtain ⟨key, name, shape⟩ := Shape.exists_of_opensBlock opens
  rw [nodes, shape]

theorem Entry.nodes_of_closes (closes : line.shape = .blockClose) :
    nodes around (.single line :: entries) = nodes around.tail entries := by
  rw [nodes, closes]

/-- The node of a line that opens no block, if there is one. -/
def Line.inlineNode? (around : List Nat) (line : Line) : Option BlockNode :=
  match line.shape with
  | .inlineBlock .. => some (line.inlineNode around)
  | _ => none

theorem Entry.nodes_of_plain (notOpen : line.shape.opensBlock = false)
    (notClose : line.shape ≠ .blockClose) :
    nodes around (.single line :: entries) =
      (line.inlineNode? around).toList ++ nodes around entries := by
  rw [nodes, Line.inlineNode?]
  cases shape : line.shape with
  | blockOpen key name => simp [shape, Shape.opensBlock] at notOpen
  | blockClose => exact absurd shape notClose
  | _ => rfl

/-- A block that a walk leads out of is cut at the same brace whatever follows. -/
theorem Walk.cutAtClose_append (walk : Walk base depth entries final)
    (deep : inside < depth) (out : final ≤ inside) (rest : List Entry) :
    (Entry.cutAtClose (inside + 1) (entries ++ rest)).1 =
      (Entry.cutAtClose (inside + 1) entries).1 ∧
      (Entry.cutAtClose (inside + 1) (entries ++ rest)).2.1 =
        (Entry.cutAtClose (inside + 1) entries).2.1 := by
  induction walk with
  | nil depth => omega
  | segment _ _ ih =>
    obtain ⟨inner, close⟩ := ih deep out
    rw [cons_append, Entry.cutAtClose_cons_none rfl, Entry.cutAtClose_cons_none rfl]
    exact ⟨by rw [inner], close⟩
  | plain _ _ notClose _ ih =>
    have notHere := Entry.closing?_of_not_close notClose (inside + 1)
    obtain ⟨inner, close⟩ := ih deep out
    simp [Entry.cutAtClose_cons_none notHere, inner, close]
  | opens _ opens _ ih =>
    have notHere := Entry.closing?_of_not_close (Shape.ne_blockClose_of_opens opens) (inside + 1)
    obtain ⟨inner, close⟩ := ih (by omega) out
    simp [Entry.cutAtClose_cons_none notHere, inner, close]
  | @closes depth final line entries at_ _ closes _ ih =>
    by_cases here : depth = inside
    · have found : (Entry.single line).closing? (inside + 1) = some line := by
        simp [Entry.closing?, closes, at_, here]
      simp [Entry.cutAtClose, found]
    · have notHere : (Entry.single line).closing? (inside + 1) = none := by
        simp [Entry.closing?, at_, here]
      obtain ⟨inner, close⟩ := ih (by omega) out
      simp [Entry.cutAtClose_cons_none notHere, inner, close]

/-- The blocks of a walk do not depend on what follows it, if it leads back to its base. -/
theorem Walk.nodes_append (walk : Walk base depth entries final) (above : base ≤ depth)
    (back : final = base) (rest : List Entry) :
    Entry.nodes around (entries ++ rest) =
      Entry.nodes around entries ++ Entry.nodes (around.drop (depth - base)) rest := by
  induction walk generalizing around with
  | nil depth => simp [back, Entry.nodes]
  | segment _ _ ih => simpa only [cons_append, Entry.nodes] using ih above back
  | plain _ notOpen notClose _ ih =>
    rw [cons_append, Entry.nodes_of_plain notOpen notClose, Entry.nodes_of_plain notOpen notClose,
      ih above back, append_assoc]
  | @opens depth final line entries at_ opens later ih =>
    obtain ⟨inner, close⟩ :=
      later.cutAtClose_append (Nat.lt_succ_self depth) (back.trans_le above) rest
    have node : line.blockNode around (entries ++ rest) = line.blockNode around entries := by
      rw [Line.blockNode, Line.blockNode, at_, inner, close]
    rw [cons_append, Entry.nodes_of_opens opens, Entry.nodes_of_opens opens, node,
      ih (by omega) back, Nat.succ_sub above, drop_succ_cons, cons_append]
  | @closes depth final line entries at_ within closes _ ih =>
    rw [cons_append, Entry.nodes_of_closes closes, Entry.nodes_of_closes closes,
      ih within back, drop_tail, Nat.succ_sub within]

/-- The blocks of a walk that starts and ends at its base, and those behind it. -/
theorem Walk.nodes_round (walk : Walk base base entries base) (around : List Nat)
    (rest : List Entry) :
    Entry.nodes around (entries ++ rest) =
      Entry.nodes around entries ++ Entry.nodes around rest := by
  rw [walk.nodes_append (Nat.le_refl base) rfl, Nat.sub_self, drop_zero]

theorem Member.blocks_of_block (block : Block) (members : List Member) :
    (Member.block block :: members).filterMap Member.block? =
      block :: members.filterMap block? :=
  rfl

theorem Member.blocks_of_property (key value : Text) (members : List Member) :
    (property key value :: members).filterMap block? =
      members.filterMap block? :=
  rfl

theorem Member.read_of_opens (at_ : line.depth = depth) (opens : line.shape.opensBlock = true) :
    read depth (.single line :: entries) =
      .block
        { type := line.shape.key?
          name := line.shape.name?
          properties := .ofOccurrences
            ((read (depth + 1) (Entry.cutAtClose (depth + 1) entries).1).filterMap
              property?)
          blocks := (read (depth + 1) (Entry.cutAtClose (depth + 1) entries).1).filterMap
            block?
          startLine := line.number
          endLine := (Entry.cutAtClose (depth + 1) entries).2.1.map (·.number) } ::
        read depth (Entry.cutAtClose (depth + 1) entries).2.2 := by
  obtain ⟨key, name, shape⟩ := Shape.exists_of_opensBlock opens
  rw [read, if_pos at_, shape]
  rfl

/-- A line by itself that opens and closes no block: the child it is, if any, and its node. -/
theorem Member.read_of_plain (at_ : line.depth = depth) (notOpen : line.shape.opensBlock = false)
    (notClose : line.shape ≠ .blockClose) (nested : line.role = .block) (entries : List Entry) :
    ∃ members : List Member,
      read depth (.single line :: entries) = members ++ read depth entries ∧
      members.filterMap property? = ((Entry.single line).property? depth).toList ∧
      ∀ around, Block.allNodes around (members.filterMap block?) =
        (line.inlineNode? around).toList := by
  rw [read, if_pos at_, Entry.property?, if_pos at_]
  cases shape : line.shape with
  | blockOpen key name => simp [shape, Shape.opensBlock] at notOpen
  | blockClose => exact absurd shape notClose
  | property key value =>
    refine ⟨[.property key (stripTerminator value)], rfl, rfl, fun around => ?_⟩
    rw [Line.inlineNode?, shape]
    rfl
  | inlineBlock key name value =>
    refine ⟨[.block ⟨some key, some name, [], [], line.number, some line.number⟩], rfl, rfl,
      fun around => ?_⟩
    rw [Line.inlineNode?, Line.inlineNode, shape, nested]
    rfl
  | _ =>
    refine ⟨[], rfl, rfl, fun around => ?_⟩
    rw [Line.inlineNode?, shape]
    rfl

theorem Block.allNodes_append (around : List Nat) (first second : List Block) :
    allNodes around (first ++ second) =
      allNodes around first ++ allNodes around second := by
  induction first with
  | nil => rfl
  | cons block first ih => simp [allNodes, ih]

/-- The children that are read along a walk from its base: the properties at that depth, and
the blocks with all that is in them. -/
theorem Walk.read (walk : Walk base base entries final)
    (nested : ∀ line, .single line ∈ entries → line.role = .block) :
    (Member.read base entries).filterMap Member.property? =
        entries.filterMap (Entry.property? base) ∧
      ∀ around, Block.allNodes around ((Member.read base entries).filterMap Member.block?) =
        Entry.nodes around entries := by
  -- A block is followed by the walk behind its brace, so the induction is on the length.
  induction length :
      entries.length using Nat.strong_induction_on generalizing base final entries with
  | _ length_ ih =>
    cases walk with
    | nil => simp [Member.read, Entry.nodes, Block.allNodes]
    | @segment _ _ segment later at_ walk =>
      obtain ⟨properties, blocks⟩ := ih later.length (by simp [← length]) walk
        (fun line member => nested line (mem_cons_of_mem _ member)) rfl
      rw [Member.read, if_pos at_]
      refine ⟨?_, fun around => ?_⟩
      · simp [Member.property?, Entry.property?, at_, properties]
      · rw [Member.blocks_of_property, blocks, Entry.nodes]
    | @plain _ _ line later at_ notOpen notClose walk =>
      obtain ⟨properties, blocks⟩ := ih later.length (by simp [← length]) walk
        (fun line member => nested line (mem_cons_of_mem _ member)) rfl
      obtain ⟨members, read, property, node⟩ :=
        Member.read_of_plain at_ notOpen notClose (nested line mem_cons_self) later
      rw [read]
      refine ⟨?_, fun around => ?_⟩
      · rw [filterMap_append, property, properties, filterMap_cons]
        cases (Entry.single line).property? base <;> rfl
      · rw [filterMap_append, Block.allNodes_append, node, blocks,
          Entry.nodes_of_plain notOpen notClose]
    | @opens _ _ line later at_ opens walk =>
      have role := nested line mem_cons_self
      have property : (Entry.single line).property? base = none := by
        obtain ⟨key, name, shape⟩ := Shape.exists_of_opensBlock opens
        rw [Entry.property?, if_pos at_, shape]
      rw [Member.read_of_opens at_ opens, filterMap_cons_none property]
      cases walk.cut (Nat.le_refl base) (Nat.lt_succ_self base) with
      | @closed inner rest close whole cut closes within behind =>
        rw [cut]
        dsimp only
        obtain ⟨innerProperties, innerBlocks⟩ := ih inner.length
          (by simp only [← length, whole, length_cons, length_append]; omega) within
          (fun other member => nested other (by simp [whole, member])) rfl
        obtain ⟨properties, blocks⟩ := ih rest.length
          (by simp only [← length, whole, length_cons, length_append]; omega) behind
          (fun other member => nested other (by simp [whole, member])) rfl
        refine ⟨?_, fun around => ?_⟩
        · have closing : (Entry.single close).property? base = none := by
            rw [Entry.property?, closes]
            split <;> rfl
          have inside := within.filterMap_property? (Nat.le_refl _) (Nat.lt_succ_self base)
          rw [filterMap_cons_none rfl, properties, whole, filterMap_append, inside,
            filterMap_cons_none closing, nil_append]
        · have parts : Entry.nodes (line.number :: around) later =
              Entry.nodes (line.number :: around) inner ++ Entry.nodes around rest := by
            rw [whole, within.nodes_round, Entry.nodes_of_closes closes]
            rfl
          rw [Member.blocks_of_block, Block.allNodes, Block.nodes, innerBlocks, blocks,
            Entry.nodes_of_opens opens, parts, Line.blockNode, at_, cut, innerProperties, role]
          rfl
      | unclosed cut within =>
        rw [cut]
        dsimp only
        obtain ⟨innerProperties, innerBlocks⟩ := ih later.length (by simp [← length]) within
          (fun line member => nested line (mem_cons_of_mem _ member)) rfl
        refine ⟨?_, fun around => ?_⟩
        · rw [within.filterMap_property? (Nat.le_refl _) (Nat.lt_succ_self base),
            filterMap_cons_none rfl, Member.read]
          rfl
        · rw [Member.blocks_of_block, Block.allNodes, Block.nodes, innerBlocks, Member.read,
            Entry.nodes_of_opens opens, Line.blockNode, at_, cut, innerProperties, role]
          simp [Block.allNodes]
    | closes at_ within closes walk => omega

/-- A walk does not close the block around its base. -/
theorem Walk.cutAtClose_base (walk : Walk base depth entries final) (rest : List Entry) :
    Entry.cutAtClose base (entries ++ rest) =
      (entries ++ (Entry.cutAtClose base rest).1, (Entry.cutAtClose base rest).2) := by
  induction walk with
  | nil => rfl
  | segment _ _ ih =>
    rw [cons_append, Entry.cutAtClose_cons_none rfl, ih]
    rfl
  | plain _ _ notClose _ ih =>
    rw [cons_append, Entry.cutAtClose_cons_none (Entry.closing?_of_not_close notClose _), ih]
    rfl
  | opens _ opens _ ih =>
    have notHere := Entry.closing?_of_not_close (Shape.ne_blockClose_of_opens opens)
    rw [cons_append, Entry.cutAtClose_cons_none (notHere _), ih]
    rfl
  | @closes depth _ line _ at_ above _ _ ih =>
    have notHere : (Entry.single line).closing? base = none := by
      simp only [Entry.closing?, at_]
      exact if_neg fun both => absurd both.2 (by omega)
    rw [cons_append, Entry.cutAtClose_cons_none notHere, ih]
    rfl

end Nodes

section Grouped

variable {properties : List Text} {reads : Level → Line → Prop} {lines : List Line} {level : Level}

theorem Entries.walk (readAt : ReadsAt properties reads)
    (grouped : Entries reads depth lines entries level)
    (above : ∀ line ∈ lines, line.shape = .blockClose → base < line.depth) :
    Walk base depth entries level.depth := by
  induction grouped with
  | nil depth => exact .nil depth
  | @single depth line lines entries final read notOpen _ _ ih =>
    have at_ := (readAt _ _ read).depth
    have later := ih (forall_mem_cons.mp above).2
    rcases line.shape.bracket_cases with opens | closes | ⟨notOpens, notClose⟩
    · obtain ⟨key, name, shape⟩ := Shape.exists_of_opensBlock opens
      rw [shape] at later
      exact .opens at_ opens later
    · have deep := above line mem_cons_self closes
      rw [at_, Level.depth_outside] at deep
      rw [closes] at later
      obtain ⟨outer, rfl⟩ := Nat.exists_eq_succ_of_ne_zero (Nat.ne_of_gt (Nat.zero_lt_of_lt deep))
      exact .closes at_ (Nat.le_of_lt_succ deep) closes later
    · rw [Level.depth_next, Shape.depthBehind_of_plain notOpens notClose] at later
      exact .plain at_ notOpens notClose later
  | inline read _ _ ih =>
    exact .segment (readAt _ _ read).depth
      (ih (forall_mem_cons.mp above).2)
  | closed read _ _ _ _ _ ih =>
    refine .segment (readAt _ _ read).depth (ih fun other member => above other ?_)
    simp [member]
  | unfinished read _ _ => exact .segment (readAt _ _ read).depth (.nil _)

end Grouped

end Walking

/-- A line that is neither a property nor a block is no child. -/
theorem Member.read_of_childless {line : Line}
    (noProperty : ∀ key value, line.shape ≠ .property key value)
    (noInline : ∀ key name value, line.shape ≠ .inlineBlock key name value)
    (noOpen : ∀ key name, line.shape ≠ .blockOpen key name) (depth : Nat) (entries : List Entry) :
    read depth (.single line :: entries) = read depth entries := by
  rw [read]
  split
  · split
    next shape => exact absurd shape (noProperty _ _)
    next shape => exact absurd shape (noInline _ _ _)
    next shape => exact absurd shape (noOpen _ _)
    next => rfl
  · rfl

theorem Member.read_of_elsewhere {line : Line} {depth : Nat} (elsewhere : line.depth ≠ depth)
    (entries : List Entry) : read depth (.single line :: entries) = read depth entries := by
  rw [read, if_neg elsewhere]

/-- Whether a line has a part in the structure: blank lines and comments have none. -/
def Line.isLoud (line : Line) : Bool :=
  match line.shape with
  | .blank | .comment => false
  | _ => true

/-- Whether an entry has a part in the structure. -/
def Entry.isLoud : Entry → Bool
  | single line => line.isLoud
  | grouped _ => true

section Loud

variable {properties : List Text} {reads : Level → Line → Prop} {depth : Nat} {lines : List Line}
  {entries : List Entry} {level final : Level} {around : List Nat} {line : Line}

theorem Line.shape_of_not_loud (silent : line.isLoud = false) :
    line.shape = .blank ∨ line.shape = .comment := by
  unfold isLoud at silent
  split at silent
  next blank => exact .inl blank
  next comment => exact .inr comment
  next => cases silent

theorem Level.next_of_not_loud (silent : line.isLoud = false) (level : Level) :
    level.next line.shape = level := by
  rcases line.shape_of_not_loud silent with blank | comment
  · rw [blank]
    rfl
  · rw [comment]
    rfl

/-- Without its blank lines and comments a run is a run still. -/
theorem Run.loud (run : Run reads level lines final) :
    Run reads level (lines.filter Line.isLoud) final := by
  induction run with
  | nil => exact .nil _
  | @cons level final line lines read _ ih =>
    rw [filter_cons]
    split
    next => exact .cons read ih
    next silent => rwa [Level.next_of_not_loud (Bool.eq_false_iff.mpr silent)] at ih

theorem Line.filter_isLoud_of_content {readable : Line → Prop}
    (content : ∀ line ∈ lines, readable line ∧ line.shape = .segmentContent) :
    lines.filter isLoud = lines := by
  refine filter_eq_self.mpr fun line member => ?_
  rw [isLoud, (content line member).2]

theorem Entries.loud (grouped : Entries reads depth lines entries level) :
    Entries reads depth (lines.filter Line.isLoud) (entries.filter Entry.isLoud) level := by
  induction grouped with
  | nil depth => exact .nil depth
  | @single depth line lines entries final read notOpen notInline _ ih =>
    rw [filter_cons, filter_cons]
    by_cases loud : line.isLoud = true
    · rw [if_pos loud, if_pos (show Entry.isLoud (.single line) = true from loud)]
      exact .single read notOpen notInline ih
    · have silent := Bool.eq_false_iff.mpr loud
      rw [if_neg loud, if_neg (show ¬ Entry.isLoud (.single line) = true from loud)]
      rwa [Level.next_of_not_loud silent] at ih
  | @inline _ line _ _ _ _ _ read shape _ ih =>
    have loud : line.isLoud = true := by
      rw [Line.isLoud, shape]
    rw [filter_cons_of_pos loud, filter_cons_of_pos rfl]
    exact .inline read shape ih
  | @closed _ opening closing _ _ body _ _ _ read shape content readClosing close _ ih =>
    have loudOpening : opening.isLoud = true := by
      rw [Line.isLoud, shape]
    have loudClosing : closing.isLoud = true := by
      rw [Line.isLoud, close]
    rw [filter_cons_of_pos rfl, cons_append, filter_cons_of_pos loudOpening,
      filter_append, Line.filter_isLoud_of_content content, filter_cons_of_pos loudClosing]
    exact .closed read shape content readClosing close ih
  | @unfinished _ opening _ _ body read shape content =>
    have loudOpening : opening.isLoud = true := by
      rw [Line.isLoud, shape]
    rw [filter_cons_of_pos loudOpening, Line.filter_isLoud_of_content content]
    exact .unfinished read shape content

theorem Entry.closing?_of_not_loud (silent : entry.isLoud = false) (depth : Nat) :
    entry.closing? depth = none := by
  cases entry with
  | grouped => cases silent
  | single line =>
    have silence : (single line).Silent := Line.shape_of_not_loud silent
    exact silence.closing? depth

theorem Entry.property?_of_not_loud (silent : entry.isLoud = false) (depth : Nat) :
    entry.property? depth = none := by
  cases entry with
  | grouped => cases silent
  | single line =>
    rw [property?]
    rcases Line.shape_of_not_loud silent with blank | comment
    · rw [blank]
      split <;> rfl
    · rw [comment]
      split <;> rfl

theorem Entry.filterMap_property?_loud (depth : Nat) (entries : List Entry) :
    (entries.filter isLoud).filterMap (property? depth) =
      entries.filterMap (property? depth) := by
  induction entries with
  | nil => rfl
  | cons entry entries ih =>
    by_cases loud : entry.isLoud = true
    · rw [filter_cons_of_pos loud, filterMap_cons, filterMap_cons, ih]
    · rw [filter_cons_of_neg loud, ih,
        filterMap_cons_none (property?_of_not_loud (Bool.eq_false_iff.mpr loud) depth)]

theorem Entry.cutAtClose_loud (depth : Nat) (entries : List Entry) :
    (cutAtClose depth (entries.filter isLoud)).1 =
        (cutAtClose depth entries).1.filter isLoud ∧
      (cutAtClose depth (entries.filter isLoud)).2.1 =
        (cutAtClose depth entries).2.1 := by
  induction entries with
  | nil => exact ⟨rfl, rfl⟩
  | cons entry entries ih =>
    by_cases loud : entry.isLoud = true
    · rw [filter_cons_of_pos loud]
      cases found : entry.closing? depth with
      | some line => simp [cutAtClose, found]
      | none =>
        rw [cutAtClose_cons_none found, cutAtClose_cons_none found]
        exact ⟨by rw [filter_cons_of_pos loud, ih.1], ih.2⟩
    · have silent := closing?_of_not_loud (Bool.eq_false_iff.mpr loud) depth
      rw [filter_cons_of_neg loud, cutAtClose_cons_none silent, filter_cons_of_neg loud]
      exact ih

/-- Blank lines and comments make no blocks and no properties. -/
theorem Entry.nodes_loud (around : List Nat) (entries : List Entry) :
    nodes around (entries.filter isLoud) = nodes around entries := by
  induction entries generalizing around with
  | nil => rfl
  | cons entry entries ih =>
    cases entry with
    | grouped segment =>
      rw [filter_cons_of_pos rfl, nodes, ih, nodes]
    | single line =>
      by_cases loud : line.isLoud = true
      · rw [filter_cons_of_pos (show isLoud (.single line) = true from loud)]
        have node : line.blockNode around (entries.filter isLoud) =
            line.blockNode around entries := by
          obtain ⟨inner, close⟩ := cutAtClose_loud (line.depth + 1) entries
          rw [Line.blockNode, inner, close, filterMap_property?_loud, Line.blockNode]
        rw [nodes, nodes, node]
        simp only [ih]
      · have silent := Bool.eq_false_iff.mpr loud
        rw [filter_cons_of_neg (show ¬ isLoud (.single line) = true from loud), ih,
          nodes]
        rcases Line.shape_of_not_loud silent with blank | comment
        · rw [blank]
        · rw [comment]

end Loud

end LookML
