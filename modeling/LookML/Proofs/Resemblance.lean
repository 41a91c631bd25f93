import LookML.Proofs.BlockTree
import LookML.Proofs.Relabelling

/-!
# Blocks under other texts

Where only lines of segments change, and of those only their texts and values, a document keeps
its blocks, with their types, names and lines, and the keys of their properties.  The value of
a property changes only if it is read from a segment with a changed line, and then it is the
value of that segment as it is now.
-/

namespace LookML

open Text List

/-- A change of the texts and values in segments. -/
structure Line.Rewrites (rewrite : Line → Line) : Prop where
  number : ∀ line, (rewrite line).number = line.number
  depth : ∀ line, (rewrite line).depth = line.depth
  frame : ∀ line : Line, line.shape.SameFrame (rewrite line).shape
  elsewhere : ∀ line, line.shape.inSegment = false → rewrite line = line

theorem Line.rewrites_id : Line.Rewrites id :=
  ⟨fun _ => rfl, fun _ => rfl, fun _ => .refl _, fun _ _ => rfl⟩

theorem Line.Rewrites.toRelabels {rewrite : Line → Line} (rewrites : Line.Rewrites rewrite) :
    Line.Relabels rewrite where
  depth := rewrites.depth
  frame := rewrites.frame
  marker := fun line comment => by rw [rewrites.elsewhere line (by rw [comment]; rfl)]
  order := fun line other => by rw [rewrites.number, rewrites.number]

/-- Blocks of the same type and name on the same lines, whose blocks resemble each other.  How
their properties are related depends on the line of the header. -/
inductive Block.Resembles (keeps : Nat → Text × Text → Text × Text → Prop) : Block → Block → Prop
  | intro {block again : Block} (type : again.type = block.type) (name : again.name = block.name)
      (startLine : again.startLine = block.startLine) (endLine : again.endLine = block.endLine)
      (properties : List.Forall₂ (keeps block.startLine) block.properties again.properties)
      (blocks : List.Forall₂ (Block.Resembles keeps) block.blocks again.blocks) :
      Block.Resembles keeps block again

/-- Bodies behind a header whose properties are related and whose blocks resemble each other. -/
structure Body.Resembles (keeps : Nat → Text × Text → Text × Text → Prop) (start : Nat)
    (body again : Body) : Prop where
  properties : List.Forall₂ (keeps start) body.properties again.properties
  blocks : List.Forall₂ (Block.Resembles keeps) body.blocks again.blocks

/-- Declarations whose bodies resemble each other, and those of their fields. -/
structure Declaration.Resembles (keeps : Nat → Text × Text → Text × Text → Prop)
    (declaration again : Declaration) : Prop where
  body : declaration.body.Resembles keeps declaration.startLine again.body
  fields : List.Forall₂ (fun field other => field.body.Resembles keeps field.startLine other.body)
    declaration.fields again.fields

/-- Properties with the same key, whatever their values. -/
def SameKey (_ : Nat) (property other : Text × Text) : Prop :=
  other.1 = property.1

/-- Children that are properties with the same key, or blocks that resemble each other. -/
inductive Member.SameFrame : Member → Member → Prop
  | property (key value other : Text) : SameFrame (.property key value) (.property key other)
  | block {block again : Block} (resembles : block.Resembles SameKey again) :
      SameFrame (.block block) (.block again)

namespace Member

variable {members others : List Member}

theorem sameKey_properties (same : Forall₂ SameFrame members others) (start : Nat) :
    Forall₂ (SameKey start) (members.filterMap property?) (others.filterMap property?) := by
  induction same with
  | nil => exact .nil
  | cons here _ ih =>
    cases here with
    | property => exact .cons rfl ih
    | block => exact ih

theorem resembles_blocks (same : Forall₂ SameFrame members others) :
    Forall₂ (Block.Resembles SameKey) (members.filterMap block?)
      (others.filterMap block?) := by
  induction same with
  | nil => exact .nil
  | cons here _ ih =>
    cases here with
    | property => exact ih
    | block resembles => exact .cons resembles ih

end Member

section Frames

variable {rewrite : Line → Line} (rewrites : Line.Rewrites rewrite)
include rewrites

/-- The children of a block are the same up to the values of properties. -/
theorem Member.sameFrame_read (depth : Nat) (entries : List Entry) :
    Forall₂ SameFrame (read depth entries)
      (read depth (entries.map (Entry.map rewrite))) := by
  -- A line that counts here is outside segments, and no such line changes.
  induction depth, entries using read.induct with
  | case1 depth =>
    rw [map_nil, read]
    exact .nil
  | case2 segment entries ih =>
    rw [map_cons, Entry.map, read, read, if_pos rfl,
      if_pos (show (segment.map rewrite).depth = segment.depth from rewrites.depth _)]
    exact .cons (.property _ _ _) ih
  | case3 depth segment entries elsewhere ih =>
    have other : ¬ (segment.map rewrite).depth = depth := by
      rwa [show (segment.map rewrite).depth = segment.depth from rewrites.depth _]
    rw [map_cons, Entry.map, read, read, if_neg elsewhere, if_neg other]
    exact ih
  | case4 line entries key value shape ih =>
    rw [map_cons, Entry.map, rewrites.elsewhere line (by rw [shape]; rfl), read,
      read, if_pos rfl, if_pos rfl, shape]
    exact .cons (.property _ _ _) ih
  | case5 line entries key name value shape ih =>
    rw [map_cons, Entry.map, rewrites.elsewhere line (by rw [shape]; rfl), read,
      read, if_pos rfl, if_pos rfl, shape]
    exact .cons (.block (.intro rfl rfl rfl rfl .nil .nil)) ih
  | case6 line entries key name shape cut inside behind =>
    have numbers : Line.number ∘ rewrite = Line.number := funext rewrites.number
    rw [map_cons, Entry.map, rewrites.elsewhere line (by rw [shape]; rfl), read,
      read, if_pos rfl, if_pos rfl, shape]
    simp only [Entry.cutAtClose_map rewrites.toRelabels]
    refine .cons (.block (.intro rfl rfl rfl ?_ ?_ ?_)) behind
    · rw [Option.map_map, numbers]
    · exact Keyed.forall₂_ofOccurrences (fun _ _ same => same)
        (sameKey_properties inside line.number)
    · exact resembles_blocks inside
  | case7 line entries noProperty noInline noOpen ih =>
    have skipped (special : Line) (depth : special.depth = line.depth)
        (frame : line.shape.SameFrame special.shape) (rest : List Entry) :
        read line.depth (.single special :: rest) = read line.depth rest := by
      rw [read, if_pos depth]
      generalize line.shape = shape, special.shape = other at frame noProperty noInline noOpen
      cases frame with
      | refl =>
        split
        next => exact absurd rfl (noProperty _ _)
        next => exact absurd rfl (noInline _ _ _)
        next => exact absurd rfl (noOpen _ _)
        next => rfl
      | segmentOpen | segmentInline => rfl
    rw [map_cons, Entry.map, skipped line rfl (.refl _),
      skipped (rewrite line) (rewrites.depth line) (rewrites.frame line)]
    exact ih
  | case8 depth line entries elsewhere ih =>
    have other : ¬ (rewrite line).depth = depth := by rwa [rewrites.depth]
    rw [map_cons, Entry.map, read, read, if_neg elsewhere, if_neg other]
    exact ih

theorem Body.resembles_map (depth start : Nat) (lines : List Line) :
    (ofLines depth lines).Resembles SameKey start
      (ofLines depth (lines.map rewrite)) := by
  have same := Member.sameFrame_read rewrites depth (Entry.group lines)
  rw [← Entry.group_map rewrites.toRelabels] at same
  exact ⟨Keyed.forall₂_ofOccurrences (fun _ _ same => same) (Member.sameKey_properties same start),
    Member.resembles_blocks same⟩

theorem Declaration.resembles_map (declaration : Declaration) :
    declaration.Resembles SameKey (declaration.map rewrite) where
  body := by
    have same := Body.resembles_map rewrites declaration.childDepth declaration.startLine
      declaration.content
    have depth : (declaration.map rewrite).childDepth = declaration.childDepth :=
      congrArg (· + 1) (rewrites.depth declaration.header)
    rw [body, body, depth]
    exact same
  fields := by
    refine forall₂_map_right_iff.mpr (forall₂_same.mpr fun field _ => ?_)
    have same := Body.resembles_map rewrites (field.depth + 1) field.startLine field.inner
    have depth : (field.map rewrite).depth = field.depth := rewrites.depth field.opening
    rw [Field.body, Field.body, depth]
    exact same

end Frames

/-- Blocks whose properties are related wherever they have the same header. -/
def KeepsValues (keeps : Nat → Text × Text → Text × Text → Prop) (nodes others : List BlockNode) :
    Prop :=
  ∀ node ∈ nodes, ∀ other ∈ others, other.startLine = node.startLine →
    List.Forall₂ (keeps node.startLine) node.properties other.properties

section Values

variable {keeps : Nat → Text × Text → Text × Text → Prop}

theorem KeepsValues.mono {nodes others all every : List BlockNode}
    (kept : KeepsValues keeps all every)
    (first : nodes ⊆ all) (second : others ⊆ every) : KeepsValues keeps nodes others :=
  fun node here other there => kept node (first here) other (second there)

mutual

/-- Blocks that resemble each other do so with what is known of the values behind a header. -/
theorem Block.Resembles.refine (around : List Nat) : ∀ {block again : Block},
    block.Resembles SameKey again →
    KeepsValues keeps (block.nodes around) (again.nodes around) → block.Resembles keeps again
  | ⟨type, name, properties, blocks, startLine, endLine⟩, ⟨_, _, properties', blocks', _, _⟩,
    .intro rfl rfl rfl rfl _ inner, kept => by
      rw [nodes, nodes] at kept
      have here := kept _ mem_cons_self _ mem_cons_self rfl
      refine .intro rfl rfl rfl rfl here (refineAll (startLine :: around) inner ?_)
      exact kept.mono (subset_cons_self _ _) (subset_cons_self _ _)

theorem Block.Resembles.refineAll (around : List Nat) : ∀ {blocks others : List Block},
    Forall₂ (Block.Resembles SameKey) blocks others →
    KeepsValues keeps (allNodes around blocks) (allNodes around others) →
    Forall₂ (Block.Resembles keeps) blocks others
  | [], [], _, _ => .nil
  | block :: blocks, other :: others, .cons here later, kept => by
      rw [allNodes, allNodes] at kept
      refine .cons (refine around here ?_)
        (refineAll around later ?_)
      · exact kept.mono (subset_append_left _ _) (subset_append_left _ _)
      · exact kept.mono (subset_append_right _ _) (subset_append_right _ _)

end

/-- A declaration under other texts, with what is known of its values. -/
theorem Declaration.resembles_of_values {rewrite : Line → Line} (rewrites : Line.Rewrites rewrite)
    {declaration : Declaration}
    (kept : KeepsValues keeps declaration.nodes (declaration.map rewrite).nodes) :
    declaration.Resembles keeps (declaration.map rewrite) := by
  have same := resembles_map rewrites declaration
  have start : (declaration.map rewrite).startLine = declaration.startLine := rewrites.number _
  rw [nodes, nodes, start] at kept
  refine ⟨⟨kept _ mem_cons_self _ mem_cons_self rfl, ?_⟩, ?_⟩
  · refine Block.Resembles.refineAll [declaration.startLine] same.body.blocks (kept.mono ?_ ?_)
    · exact subset_cons_of_subset _ (subset_append_left _ _)
    · exact subset_cons_of_subset _ (subset_append_left _ _)
  · refine forall₂_map_right_iff.mpr (forall₂_same.mpr fun field member => ?_)
    have alike := Body.resembles_map rewrites (field.depth + 1) field.startLine field.inner
    have number : (field.map rewrite).startLine = field.startLine := rewrites.number _
    have depth : (field.map rewrite).depth = field.depth := rewrites.depth _
    have within : KeepsValues keeps (field.nodes [declaration.startLine])
        ((field.map rewrite).nodes [declaration.startLine]) := by
      refine kept.mono ?_ ?_
      · exact fun node here => mem_cons_of_mem _ (mem_append_right _
          (mem_flatMap.mpr ⟨field, member, here⟩))
      · exact fun node here => mem_cons_of_mem _ (mem_append_right _
          (mem_flatMap.mpr ⟨field.map rewrite, mem_map_of_mem member, here⟩))
    rw [Field.nodes, Field.nodes, number] at within
    refine ⟨within _ mem_cons_self _ mem_cons_self rfl, ?_⟩
    refine Block.Resembles.refineAll (field.startLine :: [declaration.startLine]) ?_
      (within.mono (subset_cons_self _ _) (subset_cons_self _ _))
    rw [Field.body, Field.body, depth]
    exact alike.blocks

end Values

/-- A segment directly inside the block of a header. -/
def Lexed.HoldsSegment (lexed : Lexed) (start : Nat) (segment : Segment) : Prop :=
  ∃ front header rest, Entry.group lexed.lines = front ++ .single header :: rest ∧
    header.shape.opensBlock = true ∧ header.number = start ∧ segment.depth = header.depth + 1 ∧
    .grouped segment ∈ (Entry.cutAtClose (header.depth + 1) rest).1

/-- A property of the block of a header before and after a change of texts: it stays as it is,
or it is read from a segment of that block with a line that changes. -/
def Lexed.KeepsProperty (lexed : Lexed) (rewrite : Line → Line) (start : Nat)
    (property other : Text × Text) : Prop :=
  other = property ∨ ∃ segment, lexed.HoldsSegment start segment ∧
    (∃ line ∈ segment.lines, rewrite line ≠ line) ∧
    property = (segment.property, segment.text) ∧
    other = (segment.property, (segment.map rewrite).text)

/-- A document under other texts. -/
structure Document.Rewritten (lexed : Lexed) (rewrite : Line → Line) (document again : Document) :
    Prop where
  items : again.items = document.items.map (Item.map rewrite)
  declarations : List.Forall₂ (Declaration.Resembles (lexed.KeepsProperty rewrite))
    document.declarations again.declarations
  anomalies : again.anomalies = document.anomalies
  includes : again.includes = document.includes
  connection : again.connection = document.connection
  lineCount : again.lineCount = document.lineCount

section Documents

variable {rewrite : Line → Line}

theorem Lexed.KeepsProperty.sameKey {lexed : Lexed} {start : Nat} {property other : Text × Text}
    (kept : lexed.KeepsProperty rewrite start property other) : other.1 = property.1 := by
  rcases kept with rfl | ⟨segment, -, -, rfl, rfl⟩
  · rfl
  · rfl

theorem Segment.map_eq_self {segment : Segment}
    (same : ∀ line ∈ segment.lines, rewrite line = line) : segment.map rewrite = segment := by
  have opening : rewrite segment.opening = segment.opening := same _ (by simp [lines])
  have body : segment.body.map rewrite = segment.body := by
    refine (map_congr_left fun line member => ?_).trans (map_id _)
    exact same line (by simp [lines, member])
  have closing : segment.closing.map rewrite = segment.closing := by
    cases last : segment.closing with
    | none => rfl
    | some line => exact congrArg some (same line (by simp [lines, last]))
  rw [map, opening, body, closing, if_pos rfl]

/-- The entries of a text begin with lines in order. -/
theorem Lexed.ascending_openings (properties : List Text) (text : Text) :
    Ascending ((Entry.group (ofText properties text).lines).map Entry.opening) :=
  (ascending_ofText properties text).sublist (Entry.openings_sublist _)

/-- A header among entries under other texts is one of theirs, with the same entries behind it. -/
theorem Entry.split_map {entries front rest : List Entry} {header : Line}
    (whole : entries.map (map rewrite) = front ++ .single header :: rest) :
    ∃ before line behind, entries = before ++ .single line :: behind ∧
      header = rewrite line ∧ rest = behind.map (map rewrite) := by
  obtain ⟨before, later, rfl, -, same⟩ := map_eq_append_iff.mp whole
  obtain ⟨entry, behind, rfl, here, rest⟩ := map_eq_cons_iff.mp same
  cases entry with
  | grouped segment => cases here
  | single line =>
    cases here
    exact ⟨before, line, behind, rfl, rfl, rest.symm⟩

variable (rewrites : Line.Rewrites rewrite)
include rewrites

theorem Line.Rewrites.opensBlock (line : Line) :
    (rewrite line).shape.opensBlock = line.shape.opensBlock := by
  have frame := rewrites.frame line
  generalize line.shape = shape, (rewrite line).shape = other at frame
  cases frame <;> rfl

theorem Line.Rewrites.advance (nesting : Nesting) (line : Line) :
    nesting.advance (rewrite line) = nesting.advance line := by
  have frame := rewrites.frame line
  rw [Nesting.advance, Nesting.advance, rewrites.number]
  generalize line.shape = shape, (rewrite line).shape = other at frame
  cases frame <;> rfl

/-- The properties of entries are related if those of their segments are. -/
theorem Entry.forall₂_property? {related : Text × Text → Text × Text → Prop} {depth : Nat}
    {entries : List Entry} (same : ∀ property, related property property)
    (segments : ∀ segment, .grouped segment ∈ entries → segment.depth = depth →
      related (segment.property, segment.text) (segment.property, (segment.map rewrite).text)) :
    Forall₂ related (entries.filterMap (property? depth))
      ((entries.map (map rewrite)).filterMap (property? depth)) := by
  induction entries with
  | nil => exact .nil
  | cons entry entries ih =>
    have later := ih fun segment member => segments segment (mem_cons_of_mem _ member)
    rw [map_cons, filterMap_cons, filterMap_cons]
    cases entry with
    | grouped segment =>
      have depth' : (segment.map rewrite).depth = segment.depth := rewrites.depth _
      rw [map, property?, property?, depth']
      by_cases child : segment.depth = depth
      · rw [if_pos child, if_pos child]
        exact .cons (segments segment mem_cons_self child) later
      · rw [if_neg child, if_neg child]
        exact later
    | single line =>
      have kept : (single (rewrite line)).property? depth =
          (single line).property? depth := by
        have frame := rewrites.frame line
        rw [property?, property?, rewrites.depth]
        generalize line.shape = shape, (rewrite line).shape = other at frame
        cases frame <;> rfl
      rw [map, kept]
      cases (single line).property? depth with
      | none => exact later
      | some property => exact .cons (same property) later

variable {properties : List Text} {first second : Text}
  (lines : (Lexed.ofText properties second).lines =
    (Lexed.ofText properties first).lines.map rewrite)
include lines

/-- Blocks with the same header have the properties between its braces, before and after. -/
theorem Document.properties_rewrite {node other : BlockNode}
    (inFirst : node ∈ (ofText properties first).nodes)
    (inSecond : other ∈ (ofText properties second).nodes)
    (sameStart : other.startLine = node.startLine) :
    (node.properties = [] ∧ other.properties = []) ∨
      ∃ front header rest inner,
        Entry.group (Lexed.ofText properties first).lines = front ++ .single header :: rest ∧
        header.shape.opensBlock = true ∧ header.number = node.startLine ∧
        inner = (Entry.cutAtClose (header.depth + 1) rest).1 ∧
        node.properties =
          .ofOccurrences (inner.filterMap (Entry.property? (header.depth + 1))) ∧
        other.properties = .ofOccurrences
          ((inner.map (Entry.map rewrite)).filterMap (Entry.property? (header.depth + 1))) := by
  have openings := Lexed.ascending_openings properties first
  obtain ⟨front, header, rest, whole, -, found⟩ := exists_of_mem_nodes inFirst
  obtain ⟨front', header', rest', whole', -, found'⟩ := exists_of_mem_nodes inSecond
  rw [lines, Entry.group_map rewrites.toRelabels] at whole'
  obtain ⟨before, line, behind, split, rfl, rfl⟩ := Entry.split_map whole'
  have startLine' : other.startLine = line.number := by rw [found'.startLine, rewrites.number]
  rw [whole] at openings
  obtain ⟨-, sameHeader, rfl⟩ := openings.eq_of_split (whole.symm.trans split)
    (startLine'.symm.trans (sameStart.trans found.startLine))
  cases sameHeader
  cases found with
  | block opens =>
    cases found' with
    | block =>
      refine .inr ⟨front, header, behind, _, whole, opens, rfl, rfl, rfl, ?_⟩
      rw [Line.blockNode, rewrites.depth, Entry.cutAtClose_map rewrites.toRelabels]
    | inline notOpen =>
      rw [rewrites.opensBlock, opens] at notOpen
      cases notOpen
  | inline notOpen =>
    cases found' with
    | block opens =>
      rw [rewrites.opensBlock, notOpen] at opens
      cases opens
    | inline => exact .inl ⟨rfl, rfl⟩

/-- Behind a header a property changes only with a segment of its block. -/
theorem Document.keepsValues_rewrite :
    KeepsValues ((Lexed.ofText properties first).KeepsProperty rewrite)
      (ofText properties first).nodes (ofText properties second).nodes := by
  intro node inFirst other inSecond sameStart
  rcases properties_rewrite rewrites lines inFirst inSecond sameStart with
    ⟨none_, none'⟩ | ⟨front, header, rest, inner, whole, opens, start, isInner, here, there⟩
  · rw [none_, none']
    exact .nil
  rw [here, there]
  refine Keyed.forall₂_ofOccurrences (fun _ _ kept => kept.sameKey) ?_
  refine Entry.forall₂_property? rewrites (fun _ => .inl rfl) fun segment member child => ?_
  by_cases touched : ∃ changed ∈ segment.lines, rewrite changed ≠ changed
  · rw [isInner] at member
    exact .inr ⟨segment, ⟨front, header, rest, whole, opens, start, child, member⟩, touched,
      rfl, rfl⟩
  · rw [Segment.map_eq_self fun other inside =>
      by_contra fun changed => touched ⟨other, inside, changed⟩]
    exact .inl rfl

theorem Document.items_rewrite :
    (ofText properties second).items =
      (ofText properties first).items.map (Item.map rewrite) := by
  rw [ofText, ofLexed, lines]
  exact Outline.finish_foldl_map rewrites.toRelabels.retitles _

theorem Lexed.anomalies_rewrite :
    (ofText properties second).anomalies = (ofText properties first).anomalies := by
  have alone (line : Line) : (rewrite line).anomaly? = line.anomaly? := by
    by_cases inSegment : line.shape.inSegment = true
    · have frame := rewrites.frame line
      rw [Line.anomaly?, Line.anomaly?]
      generalize line.shape = shape, (rewrite line).shape = other at frame inSegment
      cases frame with
      | segmentOpen | segmentInline => rfl
      | refl => cases shape <;> first | rfl | cases inSegment
    · rw [rewrites.elsewhere line (by simpa using inSegment)]
  have folded : (ofText properties second).lines.foldl Nesting.advance {} =
      (ofText properties first).lines.foldl Nesting.advance {} := by
    rw [lines, foldl_map]
    simp only [rewrites.advance]
  have listed : (ofText properties second).lines.filterMap Line.anomaly? =
      (ofText properties first).lines.filterMap Line.anomaly? := by
    rw [lines, filterMap_map]
    exact filterMap_congr fun line _ => alone line
  exact congrArg₂ (· ++ ·) listed (congrArg Nesting.leftovers folded)

theorem Document.declarations_rewrite :
    (ofText properties second).declarations =
      (ofText properties first).declarations.map (Declaration.map rewrite) := by
  rw [declarations, items_rewrite rewrites lines, declarations,
    filterMap_map, map_filterMap]
  refine filterMap_congr fun item _ => ?_
  cases item <;> rfl

/-- Declarations under other texts resemble each other as far as is known of the values. -/
theorem Document.resembles_rewrite {keeps : Nat → Text × Text → Text × Text → Prop}
    (kept : KeepsValues keeps (ofText properties first).nodes
      (ofText properties second).nodes) :
    ∀ declaration ∈ (ofText properties first).declarations,
      declaration.Resembles keeps (declaration.map rewrite) := by
  intro declaration member
  refine Declaration.resembles_of_values rewrites (kept.mono ?_ ?_)
  · exact fun node here => mem_flatMap.mpr ⟨declaration, member, here⟩
  · refine fun node here => mem_flatMap.mpr ⟨declaration.map rewrite, ?_, here⟩
    rw [declarations_rewrite rewrites lines]
    exact mem_map_of_mem member

/-- A text whose lines are rewritten makes the document under those texts. -/
theorem Document.rewritten_of_lines :
    Document.Rewritten (.ofText properties first) rewrite (.ofText properties first)
      (.ofText properties second) := by
  have values := rewrites.toRelabels.retitles.topLevelValues (Lexed.ofText properties first).lines
  rw [← lines] at values
  have kept := keepsValues_rewrite rewrites lines
  refine ⟨items_rewrite rewrites lines, ?_, Lexed.anomalies_rewrite rewrites lines,
    values _, congrArg List.head? (values _), ?_⟩
  · rw [declarations_rewrite rewrites lines]
    exact forall₂_map_right_iff.mpr
      (forall₂_same.mpr (resembles_rewrite rewrites lines kept))
  · exact (congrArg List.length lines).trans (length_map _)

end Documents

end LookML
