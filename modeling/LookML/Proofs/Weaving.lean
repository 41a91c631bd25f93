import LookML.Proofs.Partition
import LookML.Proofs.Scopes

/-!
# Fields woven into content

A declaration is read in two ways: its fields line by line as they come, and what is left,
the content, afterwards.  Taking fields out of the lines of a declaration, and comments and
blank lines with them, changes neither the blocks of the rest nor its properties.  So the
blocks that a document shows are the blocks of its lines, each once.
-/

namespace LookML

open Text List
open Entry (group)

variable {lines : List Line}

/-- A field and all blocks in it, given the lines of the headers around it. -/
def Field.nodes (around : List Nat) (field : Field) : List BlockNode :=
  { role := .field
    type := field.typeName
    name := field.name
    startLine := field.startLine
    endLine := field.endLine
    around := around
    properties := field.body.properties } ::
    Block.allNodes (field.startLine :: around) field.body.blocks

/-- A declaration and all blocks in it: its direct blocks first, then its fields. -/
def Declaration.nodes (declaration : Declaration) : List BlockNode :=
  { role := .declaration
    type := declaration.typeName
    name := declaration.name
    startLine := declaration.startLine
    endLine := declaration.endLine
    around := []
    properties := declaration.body.properties } ::
    (Block.allNodes [declaration.startLine] declaration.body.blocks ++
      declaration.fields.flatMap (Field.nodes [declaration.startLine]))

/-- The blocks of a part of a document. -/
def Item.nodes : Item → List BlockNode
  | .loose _ => []
  | .declaration found => found.nodes

/-- All blocks of a document, declaration by declaration. -/
def Document.nodes (document : Document) : List BlockNode :=
  document.declarations.flatMap Declaration.nodes

theorem Document.nodes_eq (document : Document) :
    document.nodes = document.items.flatMap Item.nodes := by
  rw [nodes, declarations]
  induction document.items with
  | nil => rfl
  | cons item items ih =>
    cases item with
    | loose lines =>
      rw [filterMap_cons_none rfl, flatMap_cons, ih]
      rfl
    | declaration found =>
      have shown : (Item.declaration found).declaration? = some found := rfl
      rw [filterMap_cons_some shown, flatMap_cons, flatMap_cons, ih]
      rfl

/-- Lines among the direct children of a declaration, the content that they leave when the
fields are taken out, blank lines and comments aside, and the fields. -/
inductive Weave (reads : Level → Line → Prop) : List Line → List Line → List Field → Prop
  | content (lines : List Line) : Weave reads lines (lines.filter Line.isLoud) []
  | field {lines content : List Line} {fields : List Field} {field : Field}
      (before : Weave reads lines content fields) (complete : field.Complete reads)
      (tail : List Line) :
      Weave reads (lines ++ (field.lines ++ tail)) (content ++ tail.filter Line.isLoud)
        (fields ++ [field])

section Braced

variable {inner : List Entry} {final : Nat} {line : Line}

/-- The blocks of a header with the walk in its braces. -/
theorem Line.nodes_braced (around : List Nat) (opens : line.shape.opensBlock = true)
    (walk : Walk (line.depth + 1) (line.depth + 1) inner final) {closing : Option Line}
    (closes : ∀ close ∈ closing, close.shape = .blockClose ∧ close.depth = line.depth + 1 ∧
      final = line.depth + 1) :
    Entry.nodes around (.single line :: (inner ++ closing.toList.map .single)) =
      { role := line.role
        type := line.shape.key?.getD []
        name := line.shape.name?.getD []
        startLine := line.number
        endLine := closing.map (·.number)
        around := around
        properties := .ofOccurrences (inner.filterMap (Entry.property? (line.depth + 1))) } ::
        Entry.nodes (line.number :: around) inner := by
  rw [Entry.nodes_of_opens opens, blockNode, walk.cutAtClose_base]
  cases closing with
  | none => simp [Entry.cutAtClose]
  | some close =>
    obtain ⟨shape, depth, back⟩ := closes close rfl
    have found : (Entry.single close).closing? (line.depth + 1) = some close := by
      simp [Entry.closing?, shape, depth]
    subst back
    have behind := walk.nodes_round (line.number :: around) [.single close]
    rw [Entry.nodes_of_closes shape, Entry.nodes, append_nil] at behind
    simp [Entry.cutAtClose, found, behind]

end Braced

section Woven

variable {content : List Line}

variable {properties : List Text} {reads : Level → Line → Prop} {final : Level}
  (readAt : ReadsAt properties reads)
include readAt

theorem Run.group_append {first last : Nat} (run : Run reads (.outside first) lines (.outside last))
    (rest : List Line) : group (lines ++ rest) = group lines ++ group rest :=
  (entries readAt run).groupFrom_append rfl rest

/-- A header, the lines behind it, and the closing brace, if there is one. -/
theorem Run.group_braced {depth : Nat} {key name : Option Text}
    {header : Line} {closing : Option Line}
    (run : Run reads (.outside depth) lines final) (opens : header.shape = .blockOpen key name)
    (closes : ∀ close ∈ closing, close.shape = .blockClose ∧ close.depth = depth ∧
      final = .outside depth) :
    group (header :: (lines ++ closing.toList)) =
      .single header :: (group lines ++ closing.toList.map .single) := by
  rw [group, Entry.groupFrom_none_of_single _ (by simp [opens]) (by simp [opens])]
  cases closing with
  | none => simp [group]
  | some close =>
    obtain ⟨shape, -, rfl⟩ := closes close rfl
    rw [Option.toList_some, (entries readAt run).groupFrom_append rfl,
      Entry.groupFrom_none_of_single _ (by simp [shape]) (by simp [shape])]
    rfl

/-- The lines inside a sound field are a walk, which leads back if the field is closed. -/
theorem Field.Sound.walk {field : Field} (sound : field.Sound reads final) :
    group field.lines =
        .single field.opening :: (group field.inner ++ field.closing.toList.map .single) ∧
      ∃ depth, Walk 2 2 (group field.inner) depth ∧
        ∀ close ∈ field.closing, close.shape = .blockClose ∧ close.depth = 2 ∧ depth = 2 := by
  obtain ⟨key, name, opens, -⟩ := opensField_iff.mp sound.opens
  have run := sound.run
  rw [lines, cons_append] at run
  cases run with
  | cons read later =>
    rw [opens] at later
    obtain ⟨middle, inside, last⟩ := later.split
    have deep := inside.le_depth readAt (Nat.le_refl 2) sound.inner
    have walk : Walk 2 2 (group field.inner) middle.depth := by
      refine (Run.entries readAt inside).walk readAt fun line member close => ?_
      have above := deep line member
      have notHere := sound.inner line member
      simp only [close, true_and] at notHere
      omega
    have closes : ∀ close ∈ field.closing, close.shape = .blockClose ∧ close.depth = 2 ∧
        middle = .outside 2 := by
      intro close closed
      obtain ⟨shape, depth⟩ := sound.closing close closed
      rw [Option.mem_def.mp closed] at last
      cases last with
      | cons readClose _ =>
        exact ⟨shape, depth, (readAt _ _ readClose).outside_of shape (by simp) depth⟩
    refine ⟨inside.group_braced readAt opens closes, middle.depth, walk, fun close closed => ?_⟩
    obtain ⟨shape, depth, rfl⟩ := closes close closed
    exact ⟨shape, depth, rfl⟩

/-- The lines of a field make the field and its blocks, and no property of the declaration. -/
theorem Field.Sound.nodes {field : Field} (sound : field.Sound reads final) :
    (∀ around, Entry.nodes around (group field.lines) = field.nodes around) ∧
      (group field.lines).filterMap (Entry.property? 1) = [] := by
  obtain ⟨grouped, depth, walk, closes⟩ := sound.walk readAt
  obtain ⟨key, name, opens, isField, named⟩ := opensField_iff.mp sound.opens
  have opensBlock : field.opening.shape.opensBlock = true := by
    rw [opens]
    rfl
  have opening := sound.depth_opening readAt
  have role : field.opening.role = .field := by
    simp [Line.role, opening, sound.opens]
  have nested : ∀ line, .single line ∈ group field.inner → line.role = .block := by
    intro line member
    have deep : 2 ≤ line.depth := walk.le_depth (Nat.le_refl 2) _ member
    simp only [Line.role]
    rw [if_neg (by omega), if_neg (by omega)]
  obtain ⟨innerProperties, innerBlocks⟩ := walk.read nested
  have walkFrom : Walk (field.opening.depth + 1) (field.opening.depth + 1)
      (group field.inner) depth := by
    rwa [opening]
  rw [grouped]
  refine ⟨fun around => ?_, ?_⟩
  · rw [Line.nodes_braced around opensBlock walkFrom (by rwa [opening]), role, opening, Field.nodes,
      Field.body, Body.ofLines, Field.depth, opening, innerProperties, innerBlocks]
    rfl
  · have first : (Entry.single field.opening).property? 1 = none := by
      rw [Entry.property?, if_pos opening, opens]
    have inside := walk.filterMap_property? (Nat.le_refl 2) (Nat.lt_succ_self 1)
    rw [filterMap_cons_none first, filterMap_append, inside, nil_append, filterMap_eq_nil_iff]
    intro entry member
    obtain ⟨close, isClosing, rfl⟩ := mem_map.mp member
    have shape := (closes close (Option.mem_toList.mp isClosing)).1
    rw [Entry.property?, shape]
    split <;> rfl

omit readAt in
theorem Weave.subset {fields : List Field}
    (weave : Weave reads lines content fields) : ∀ line ∈ content, line ∈ lines := by
  induction weave with
  | content lines => exact fun line member => mem_of_mem_filter member
  | field _ _ tail ih =>
    exact forall_mem_append.mpr ⟨fun line old => mem_append_left _ (ih line old),
      fun line new => mem_append_right _ (mem_append_right _ (mem_of_mem_filter new))⟩

omit readAt in
theorem Weave.snoc {fields : List Field} (weave : Weave reads lines content fields) (line : Line) :
    Weave reads (lines ++ [line]) (content ++ [line].filter Line.isLoud) fields := by
  cases weave with
  | content =>
    rw [← filter_append]
    exact .content _
  | field before complete tail =>
    rw [append_assoc, append_assoc, append_assoc, ← filter_append]
    exact .field before complete (tail ++ [line])

/-- Blank lines and comments aside, a run is grouped in the same way. -/
theorem Run.group_loud {depth : Nat} (run : Run reads (.outside depth) lines final) :
    group (lines.filter Line.isLoud) = (group lines).filter Entry.isLoud :=
  (entries readAt run).loud.eq_group

/-- Lines that have the properties and the blocks of a content with fields. -/
structure Unwoven (lines content : List Line) (fields : List Field) : Prop where
  properties : (group lines).filterMap (Entry.property? 1) =
    (group content).filterMap (Entry.property? 1)
  nodes : ∀ around, (Entry.nodes around (group lines)).Perm
    (Entry.nodes around (group content) ++ fields.flatMap (Field.nodes around))

/-- Lines none of which closes the declaration around them. -/
def Enclosed (lines : List Line) : Prop :=
  ∀ line ∈ lines, line.shape = .blockClose → 1 < line.depth

section Unweaving

variable {fields : List Field}

theorem Unwoven.loud (run : Run reads (.outside 1) lines final) :
    Unwoven lines (lines.filter Line.isLoud) [] where
  properties := by rw [run.group_loud readAt, Entry.filterMap_property?_loud]
  nodes := fun around => by
    rw [run.group_loud readAt, Entry.nodes_loud]
    simp

theorem Unwoven.of_loud (unwoven : Unwoven lines (content.filter Line.isLoud) fields)
    (run : Run reads (.outside 1) content final) : Unwoven lines content fields where
  properties := by
    rw [unwoven.properties, run.group_loud readAt, Entry.filterMap_property?_loud]
  nodes := fun around => by
    have nodes := unwoven.nodes around
    rwa [run.group_loud readAt, Entry.nodes_loud] at nodes

/-- Lines behind which a field follows, closed or not. -/
theorem Unwoven.field {field : Field} (unwoven : Unwoven lines content fields)
    (run : Run reads (.outside 1) lines (.outside 1)) (enclosed : Enclosed lines)
    (sound : field.Sound reads final) :
    Unwoven (lines ++ field.lines) content (fields ++ [field]) := by
  obtain ⟨fieldNodes, fieldProperties⟩ := sound.nodes readAt
  have walk := (Run.entries readAt run).walk readAt enclosed
  refine ⟨?_, fun around => ?_⟩
  · rw [run.group_append readAt, filterMap_append, fieldProperties, append_nil, unwoven.properties]
  · rw [run.group_append readAt, walk.nodes_round, fieldNodes, flatMap_append, flatMap_singleton,
      ← append_assoc]
    exact (unwoven.nodes around).append_right _

/-- Lines behind which more content follows. -/
theorem Unwoven.tail {tail : List Line} (unwoven : Unwoven lines content fields)
    (run : Run reads (.outside 1) lines (.outside 1)) (enclosed : Enclosed lines)
    (contentRun : Run reads (.outside 1) content (.outside 1)) (contentEnclosed : Enclosed content)
    (tailRun : Run reads (.outside 1) tail final) :
    Unwoven (lines ++ tail) (content ++ tail.filter Line.isLoud) fields := by
  have walk := (Run.entries readAt run).walk readAt enclosed
  have contentWalk := (Run.entries readAt contentRun).walk readAt contentEnclosed
  have groupedContent : group (content ++ tail.filter Line.isLoud) =
      group content ++ (group tail).filter Entry.isLoud := by
    rw [contentRun.group_append readAt, tailRun.group_loud readAt]
  refine ⟨?_, fun around => ?_⟩
  · rw [run.group_append readAt, groupedContent, filterMap_append, filterMap_append,
      unwoven.properties, Entry.filterMap_property?_loud]
  · rw [run.group_append readAt, groupedContent, walk.nodes_round, contentWalk.nodes_round,
      Entry.nodes_loud, perm_iff_count]
    intro node
    have count := perm_iff_count.mp (unwoven.nodes around) node
    simp only [count_append] at count ⊢
    omega

/-- A field starts among the direct children of its declaration. -/
theorem Field.Sound.start {field : Field} {level last : Level} (sound : field.Sound reads final)
    (run : Run reads level field.lines last) : level = .outside 1 := by
  obtain ⟨key, name, opens, -⟩ := opensField_iff.mp sound.opens
  cases run with
  | cons read _ =>
    exact (readAt _ _ read).outside_of opens (by simp) (sound.depth_opening readAt)

/-- Without its fields a declaration keeps the properties and the other blocks. -/
theorem Weave.unwoven (weave : Weave reads lines content fields)
    (run : Run reads (.outside 1) lines final) (enclosed : Enclosed lines) :
    Run reads (.outside 1) content final ∧ Unwoven lines content fields := by
  induction weave generalizing final with
  | content lines => exact ⟨run.loud, .loud readAt run⟩
  | @field lines content fields field before complete tail ih =>
    rw [← append_assoc] at run enclosed ⊢
    obtain ⟨middle, front, back⟩ := run.split
    obtain ⟨first, start, here⟩ := front.split
    cases complete.start readAt here
    cases complete.run.unique here
    have enclosedFront : Enclosed (lines ++ field.lines) :=
      (forall_mem_append.mp enclosed).1
    have enclosedStart : Enclosed lines :=
      (forall_mem_append.mp enclosedFront).1
    obtain ⟨contentRun, unwoven⟩ := ih start enclosedStart
    have withField := unwoven.field readAt start enclosedStart complete.toSound
    refine ⟨contentRun.append back.loud,
      withField.tail readAt front enclosedFront contentRun ?_ back⟩
    exact fun line member => enclosedStart line (before.subset line member)

end Unweaving

/-- The children read from the content of a declaration: its properties, and its blocks other
than fields. -/
theorem Declaration.read_content (isContent : ∀ line ∈ content, line.IsContent)
    (run : Run reads (.outside 1) content final) :
    (Member.read 1 (group content)).filterMap Member.property? =
        (group content).filterMap (Entry.property? 1) ∧
      ∀ around, Block.allNodes around
        ((Member.read 1 (group content)).filterMap Member.block?) =
        Entry.nodes around (group content) := by
  have deep := run.le_depth readAt (Nat.le_refl 1) fun line member close =>
    (isContent line member close.2).1 close.1
  have entries := Run.entries readAt run
  have enclosed : Enclosed content := by
    intro line member close
    have above := deep line member
    have notHere : line.depth ≠ 1 := fun depth => (isContent line member depth).1 close
    omega
  refine (entries.walk readAt enclosed).read fun line member => ?_
  have inContent := entries.mem_of_single member
  have above := deep line inContent
  simp only [Line.role]
  rw [if_neg (by omega), if_neg]
  rintro ⟨depth, opens⟩
  rw [(isContent line inContent depth).2.1] at opens
  cases opens

/-- The blocks of the lines of a declaration, given what its fields leave. -/
theorem Declaration.perm_nodes {declaration : Declaration} {body : List Line} {level : Level}
    (header : reads (.outside 0) declaration.header)
    (opens : ∃ key name, declaration.header.shape = .blockOpen key name)
    (content : ∀ line ∈ declaration.content, line.IsContent)
    (contentRun : Run reads (.outside 1) declaration.content level)
    (run : Run reads (.outside 1) body final) (enclosed : Enclosed body)
    (unwoven : Unwoven body declaration.content declaration.fields)
    (footer : ∀ close ∈ declaration.footer, close.shape = .blockClose ∧ close.depth = 1 ∧
      final = .outside 1) :
    declaration.nodes.Perm
      (Entry.nodes []
        (group (declaration.header :: (body ++ declaration.footer.toList)))) := by
  obtain ⟨key, name, shape⟩ := opens
  have top : declaration.header.depth = 0 := (readAt _ _ header).depth
  have opensBlock : declaration.header.shape.opensBlock = true := by
    rw [shape]
    rfl
  have walk : Walk (declaration.header.depth + 1) (declaration.header.depth + 1)
      (group body) final.depth := by
    rw [top]
    exact (Run.entries readAt run).walk readAt enclosed
  have closes : ∀ close ∈ declaration.footer, close.shape = .blockClose ∧
      close.depth = declaration.header.depth + 1 ∧ final.depth = declaration.header.depth + 1 := by
    intro close closed
    obtain ⟨closes, depth, rfl⟩ := footer close closed
    exact ⟨closes, by rw [depth, top], by rw [top]; rfl⟩
  have role : declaration.header.role = .declaration := if_pos top
  obtain ⟨properties, blocks⟩ := read_content readAt content contentRun
  rw [run.group_braced readAt shape footer, Line.nodes_braced [] opensBlock walk closes, role, top,
    Nat.zero_add, unwoven.properties, ← properties, Declaration.nodes,
    Declaration.body, Body.ofLines, childDepth, top]
  dsimp only
  rw [blocks]
  exact ((unwoven.nodes _).symm).cons _

end Woven

/-- The lines of the field that is open. -/
def OpenDeclaration.openLines (declaration : OpenDeclaration) : List Line :=
  declaration.field.toList.flatMap fun field => field.opening :: field.inner

/-- An open declaration with the lines behind its header: fields woven into content, and the
lines of the field that is open. -/
structure OpenDeclaration.Woven (reads : Level → Line → Prop) (declaration : OpenDeclaration)
    (body : List Line) (level : Level) : Prop where
  run : Run reads (.outside 1) body level
  enclosed : Enclosed body
  weave : ∃ front, body = front ++ declaration.openLines ∧
    Weave reads front (declaration.content.filter Line.isLoud) declaration.fields

/-- Parts of a document that show the blocks of the lines they were read from. -/
structure Shows (reads : Level → Line → Prop) (items : List Item) (past : List Line) : Prop where
  run : Run reads (.outside 0) past (.outside 0)
  behind : ∀ rest, Entry.nodes [] (group past ++ rest) =
    Entry.nodes [] (group past) ++ Entry.nodes [] rest
  nodes : (items.flatMap Item.nodes).Perm (Entry.nodes [] (group past))

/-- An outline with the lines read so far: its parts show the blocks of their lines, and what
is still open has the lines behind those. -/
structure Outline.Woven (reads : Level → Line → Prop) (outline : Outline) (seen : List Line)
    (level : Level) : Prop where
  parts : ∃ past current, seen = past ++ current ∧ Shows reads outline.items past ∧
    (outline.declaration = none → outline.loose = current) ∧
    ∀ declaration ∈ outline.declaration, outline.loose = [] ∧
      ∃ body, current = declaration.header :: body ∧ declaration.Woven reads body level

section Weaving

variable {properties : List Text} {reads : Level → Line → Prop} {level : Level} {line : Line}
  {body : List Line} (readAt : ReadsAt properties reads)

theorem Line.IsRemark.not_loud {remark : Line} (isRemark : remark.IsRemark reads) :
    remark.isLoud = false := by
  rw [isLoud, isRemark.shape]

namespace OpenDeclaration

variable {declaration more : OpenDeclaration}

theorem Sound.loud_waiting (sound : declaration.Sound reads level) :
    declaration.waiting.filter Line.isLoud = [] :=
  filter_eq_nil_iff.mpr fun line member => by simp [(sound.waiting line member).not_loud]

include readAt

theorem Woven.step (woven : declaration.Woven reads body level)
    (sound : declaration.Sound reads level) (read : reads level line)
    (step : Step declaration line (.inl more))
    (stepped : more.Sound reads (level.next line.shape)) :
    more.Woven reads (body ++ [line]) (level.next line.shape) := by
  obtain ⟨front, whole, weave⟩ := woven.weave
  refine ⟨woven.run.append (.single read), ?_, ?_⟩
  · refine forall_mem_snoc.mpr ⟨woven.enclosed, fun close => ?_⟩
    have deep := stepped.depth
    rw [close] at deep
    simp only [Level.next] at deep
    rw [(readAt _ _ read).depth]
    omega
  · have silent (comment : line.shape = .comment) : Weave reads (front ++ [line])
        (declaration.content.filter Line.isLoud) declaration.fields := by
      simpa [Line.isLoud, comment] using weave.snoc line
    cases step with
    | @endsField field isOpen close depth =>
      have complete := stepped.complete (field.close declaration.parent (some line)) (by simp)
      refine ⟨_, (append_nil _).symm, ?_⟩
      have woven := weave.field complete []
      simp only [filter_nil, append_nil] at woven
      have lines : body ++ [line] =
          front ++ (field.close declaration.parent (some line)).lines := by
        simp [whole, openLines, isOpen, Field.lines, OpenField.close]
      rwa [lines]
    | @inField field isOpen goesOn =>
      exact ⟨front, by simp [whole, openLines, isOpen], weave⟩
    | kept noField stays =>
      have woven := weave.snoc line
      refine ⟨front ++ [line], by simp [whole, openLines, noField, keep], ?_⟩
      simpa [keep, filter_append, sound.loud_waiting] using woven
    | skipped noField depth comment marker | waits noField depth comment plain =>
      exact ⟨front ++ [line], by simp [whole, openLines, noField], silent comment⟩
    | startsField noField depth opens =>
      exact ⟨front, by simp [whole, openLines, noField], weave⟩

omit readAt in
/-- The comments that the closing brace moves are silent. -/
theorem loud_cutTail (declaration : OpenDeclaration) :
    declaration.cutTail.1.filter Line.isLoud = declaration.content.filter Line.isLoud := by
  obtain ⟨kept, blanks, tail, content, cut, -, tailLines, -⟩ := declaration.exists_cutTail
  have silent : (blanks ++ tail).filter Line.isLoud = [] := by
    refine filter_eq_nil_iff.mpr fun line member => ?_
    rcases (tailLines line member).2 with comment | blank
    · simp [Line.isLoud, comment]
    · simp [Line.isLoud, blank]
  rw [cut, content, filter_append, silent, append_nil]

/-- The closing brace makes a declaration that shows the blocks of its lines. -/
theorem Woven.perm_close (woven : declaration.Woven reads body (.outside 1))
    (sound : declaration.Sound reads (.outside 1)) (read : reads (.outside 1) line)
    (noField : declaration.field = none) (close : line.shape = .blockClose) :
    (declaration.close line).nodes.Perm
      (Entry.nodes [] (group (declaration.header :: (body ++ [line])))) := by
  obtain ⟨front, whole, weave⟩ := woven.weave
  simp only [openLines, noField, Option.toList_none, flatMap_nil, append_nil] at whole
  subst whole
  have closed := sound.closed_close readAt read noField close
  have unwoven := (weave.unwoven readAt woven.run woven.enclosed).2
  rw [← declaration.loud_cutTail] at unwoven
  have footer : ∀ candidate ∈ (declaration.close line).footer, candidate.shape = .blockClose ∧
      candidate.depth = 1 ∧ Level.outside 1 = .outside 1 := by
    intro candidate member
    cases member
    exact ⟨close, (readAt _ _ read).depth, rfl⟩
  exact Declaration.perm_nodes readAt closed.readHeader closed.opens closed.content closed.run
    woven.run woven.enclosed (unwoven.of_loud readAt closed.run) footer

/-- So does the end of the text. -/
theorem Woven.perm_abandon (woven : declaration.Woven reads body level)
    (sound : declaration.Sound reads level) :
    declaration.abandon.nodes.Perm
      (Entry.nodes [] (group (declaration.header :: body))) := by
  obtain ⟨front, whole, weave⟩ := woven.weave
  obtain ⟨last, contentRun, closedField, openField⟩ := sound.run
  have enclosedFront : Enclosed front := by
    intro line member
    exact woven.enclosed line (by simp [whole, member])
  have content : ∀ line ∈ declaration.abandon.content, line.IsContent :=
    forall_mem_append.mpr ⟨sound.content, fun line remark => (sound.waiting line remark).isContent⟩
  have loud : declaration.abandon.content.filter Line.isLoud =
      declaration.content.filter Line.isLoud := by
    simp [abandon, filter_append, sound.loud_waiting]
  have unwoven : Unwoven body declaration.abandon.content declaration.abandon.fields := by
    cases isOpen : declaration.field with
    | none =>
      simp only [openLines, isOpen, Option.toList_none, flatMap_nil, append_nil] at whole
      subst whole
      have unwoven := (weave.unwoven readAt woven.run woven.enclosed).2
      rw [← loud] at unwoven
      simpa [abandon, isOpen] using unwoven.of_loud readAt contentRun
    | some field =>
      have fieldSound := (sound.field field isOpen).1
      have lines : declaration.openLines = (field.close declaration.parent none).lines := by
        simp [openLines, isOpen, Field.lines, OpenField.close]
      rw [lines] at whole
      subst whole
      obtain ⟨middle, start, here⟩ := woven.run.split
      cases fieldSound.start readAt here
      have unwoven := (weave.unwoven readAt start enclosedFront).2
      rw [← loud] at unwoven
      have more := (unwoven.of_loud readAt contentRun).field readAt start enclosedFront fieldSound
      simpa [abandon, isOpen] using more
  have nodes := Declaration.perm_nodes readAt sound.readHeader sound.opens content contentRun
    woven.run woven.enclosed unwoven (by simp [abandon])
  simpa [abandon] using nodes

end OpenDeclaration

theorem Entries.nodes_loose {depth : Nat} {entries : List Entry}
    (grouped : Entries reads depth lines entries level) (loose : ∀ line ∈ lines, line.IsLoose)
    (rest : List Entry) : Entry.nodes [] (entries ++ rest) = Entry.nodes [] rest := by
  induction grouped with
  | nil => rfl
  | @single depth line lines entries final _ _ _ _ ih =>
    have later := ih (forall_mem_cons.mp loose).2
    obtain ⟨notOpen, notInline⟩ := loose line mem_cons_self
    rw [cons_append, Entry.nodes]
    cases shape : line.shape with
    | blockOpen key name => exact absurd shape (notOpen key name)
    | inlineBlock key name value => exact absurd shape (notInline key name value)
    | _ => exact later
  | inline _ _ _ ih => exact ih (forall_mem_cons.mp loose).2
  | closed _ _ _ _ _ _ ih => exact ih fun other member => loose other (by simp [member])
  | unfinished => rfl

include readAt

/-- One more part with its lines. -/
theorem Shows.snoc {items : List Item} {item : Item} {past piece : List Line}
    (shows : Shows reads items past) (run : Run reads (.outside 0) piece (.outside 0))
    (behind : ∀ rest, Entry.nodes [] (group piece ++ rest) =
      Entry.nodes [] (group piece) ++ Entry.nodes [] rest)
    (nodes : item.nodes.Perm (Entry.nodes [] (group piece))) :
    Shows reads (items ++ [item]) (past ++ piece) := by
  have grouped := shows.run.group_append readAt piece
  refine ⟨shows.run.append run, fun rest => ?_, ?_⟩
  · rw [grouped, append_assoc, shows.behind, shows.behind, behind, append_assoc]
  · rw [grouped, shows.behind, flatMap_append, flatMap_singleton]
    exact shows.nodes.append nodes

namespace Outline

variable {outline : Outline} {seen : List Line}

/-- Loose lines that lead back outside everything can be settled. -/
theorem Woven.settled (woven : outline.Woven reads seen (.outside 0))
    (sound : outline.Sound reads (.outside 0)) (noDeclaration : outline.declaration = none) :
    Shows reads outline.settled seen := by
  obtain ⟨past, current, rfl, shows, loose, -⟩ := woven.parts
  obtain rfl := loose noDeclaration
  obtain ⟨-, run, isLoose⟩ := sound.loose noDeclaration
  have none_ := (Run.entries readAt run).nodes_loose isLoose
  have noNodes := none_ []
  rw [append_nil, Entry.nodes] at noNodes
  unfold settled
  split
  next noLoose =>
    rw [List.isEmpty_iff.mp noLoose, append_nil]
    exact shows
  next =>
    refine shows.snoc readAt run (fun rest => ?_) ?_
    · rw [none_, noNodes, nil_append]
    · rw [noNodes]
      exact .nil

theorem Woven.add (woven : outline.Woven reads seen level) (sound : outline.Sound reads level)
    (read : reads level line) :
    (outline.add line).Woven reads (seen ++ [line]) (level.next line.shape) := by
  have after := sound.add readAt read
  have atLine := readAt _ _ read
  have step := outline.step_add line
  generalize outline.add line = next at step after
  obtain ⟨past, current, whole, shows, loose, declared⟩ := woven.parts
  constructor
  cases step with
  | @within declaration more open_ added =>
    obtain ⟨noLoose, body, rfl, declarationWoven⟩ := declared declaration open_
    have declarationSound := (sound.declaration declaration open_).2
    have stepped := (after.declaration more rfl).2
    have moved := declaration.step_add line
    rw [added] at moved
    refine ⟨past, declaration.header :: (body ++ [line]), by simp [whole], shows, by simp, ?_⟩
    intro candidate member
    cases member
    refine ⟨noLoose, body ++ [line], ?_,
      declarationWoven.step readAt declarationSound read moved stepped⟩
    cases moved <;> rfl
  | @completes declaration complete open_ added =>
    obtain ⟨noLoose, body, rfl, declarationWoven⟩ := declared declaration open_
    have declarationSound := (sound.declaration declaration open_).2
    have moved := declaration.step_add line
    rw [added] at moved
    cases moved with
    | ends noField depth close =>
      have child := declarationSound.childDepth_eq readAt
      obtain rfl := atLine.outside_of close (by simp) (depth.trans child)
      obtain ⟨key, name, shape⟩ := declarationSound.opens
      have run : Run reads (.outside 0) (declaration.header :: (body ++ [line])) (.outside 0) := by
        refine .cons declarationSound.readHeader ?_
        rw [shape]
        have last := Run.single read
        rw [close] at last
        exact declarationWoven.run.append last
      have deep : ∀ candidate ∈ declaration.header :: (body ++ [line]),
          candidate.shape = .blockClose → 0 < candidate.depth := by
        intro candidate member closes
        simp only [mem_cons, mem_append, not_mem_nil, or_false] at member
        rcases member with rfl | inBody | rfl
        · simp [shape] at closes
        · exact Nat.zero_lt_of_lt (declarationWoven.enclosed candidate inBody closes)
        · rw [atLine.depth]
          exact Nat.one_pos
      have walk := (Run.entries readAt run).walk readAt deep
      have perm := declarationWoven.perm_close readAt declarationSound read noField close
      exact ⟨past ++ declaration.header :: (body ++ [line]), [], by simp [whole],
        shows.snoc readAt run (walk.nodes_round []) perm, by simp [noLoose], by simp⟩
  | @opens key name noDeclaration top shape =>
    obtain rfl := atLine.outside_of shape (by simp) top
    refine ⟨seen, [line], rfl, woven.settled readAt sound noDeclaration, by simp, ?_⟩
    intro candidate member
    cases member
    refine ⟨rfl, [], rfl, ?_, by simp [Enclosed], [], rfl, .content []⟩
    rw [shape]
    exact .nil _
  | @inline key name value noDeclaration top shape =>
    obtain rfl := atLine.outside_of shape (by simp) top
    have run : Run reads (.outside 0) [line] (.outside 0) := by
      have single := Run.single read
      rwa [shape] at single
    have walk : Walk 0 0 (group [line]) 0 :=
      (Run.entries readAt run).walk readAt (by simp [shape])
    have role : line.role = .declaration := if_pos top
    refine ⟨seen ++ [line], [], by simp,
      (woven.settled readAt sound noDeclaration).snoc readAt run (walk.nodes_round []) ?_,
      by simp, by simp⟩
    simp [Item.nodes, Declaration.nodes, group, Entry.groupFrom, Entry.ofLine, shape,
      Entry.nodes, Line.inlineNode, role, Declaration.body, Body.ofLines, Member.read,
      Block.allNodes, Keyed.ofOccurrences, Declaration.typeName, Declaration.name,
      Declaration.startLine, Declaration.endLine]
  | loose noDeclaration plain =>
    refine ⟨past, current ++ [line], by simp [whole], shows, ?_, ?_⟩
    · intro _
      simp [loose noDeclaration]
    · simp [noDeclaration]

theorem Woven.foldl {final : Level} (run : Run reads level lines final)
    (woven : outline.Woven reads seen level) (sound : outline.Sound reads level) :
    (lines.foldl Outline.add outline).Woven reads (seen ++ lines) final := by
  induction run generalizing outline seen with
  | nil => simpa using woven
  | cons read _ ih =>
    simpa using ih (woven.add readAt sound read) (sound.add readAt read)

/-- When the text ends, the parts show the blocks of all lines. -/
theorem Woven.finish (woven : outline.Woven reads seen level) (sound : outline.Sound reads level) :
    (outline.finish.flatMap Item.nodes).Perm (Entry.nodes [] (group seen)) := by
  obtain ⟨past, current, rfl, shows, loose, declared⟩ := woven.parts
  rw [shows.run.group_append readAt, shows.behind]
  unfold finish
  cases open_ : outline.declaration with
  | none =>
    obtain rfl := loose open_
    obtain ⟨-, run, isLoose⟩ := sound.loose open_
    have noNodes := (Run.entries readAt run).nodes_loose isLoose []
    rw [append_nil, Entry.nodes] at noNodes
    have noLoose : outline.settled.flatMap Item.nodes = outline.items.flatMap Item.nodes := by
      unfold Outline.settled
      split
      next => rfl
      next => simp [Item.nodes]
    rw [noNodes, append_nil]
    dsimp only
    rw [noLoose]
    exact shows.nodes
  | some declaration =>
    obtain ⟨-, body, rfl, declarationWoven⟩ := declared declaration open_
    have perm := declarationWoven.perm_abandon readAt (sound.declaration declaration open_).2
    dsimp only
    rw [flatMap_append, flatMap_singleton]
    exact shows.nodes.append perm

end Outline

/-- The blocks that a document shows are those of its lines. -/
theorem Document.perm_nodes {lexed : Lexed} {final : Level}
    (run : Run reads (.outside 0) lexed.lines final) :
    (ofLexed lexed).nodes.Perm (Entry.nodes [] (group lexed.lines)) := by
  have sound := Outline.sound_empty reads
  have woven : Outline.Woven reads {} [] (.outside 0) :=
    ⟨[], [], rfl, ⟨.nil _, fun _ => rfl, .nil⟩, fun _ => rfl, by simp⟩
  have read := woven.foldl readAt run sound
  rw [nil_append] at read
  rw [Document.nodes_eq]
  exact read.finish readAt (sound.foldl readAt run)

end Weaving

end LookML
