import LookML.Proofs.Weaving

/-!
# The block tree

The lexer keeps the headers of open blocks on a stack, takes the last one off at a closing
brace, and reports those that are left when the text ends.  The document never sees that
stack.  Its blocks are those of the stack all the same: one for every header, inside the
blocks below it on the stack, and ended by the line that takes it off.

The properties of a block are those between its braces at the depth of its children.
-/

namespace LookML

open Text List

/-- Whether a shape opens a block or holds one. -/
def Shape.isHeader : Shape → Bool
  | .blockOpen .. | .inlineBlock .. => true
  | _ => false

/-- The block of a line that is ended by some line. -/
def Line.site (line : Line) (around : List Nat) (endLine : Option Nat) : Site where
  role := line.role
  type := line.shape.key?.getD []
  name := line.shape.name?.getD []
  startLine := line.number
  endLine := endLine
  around := around

namespace Nesting

/-- The lines of the headers of open blocks, innermost first. -/
def headers (nesting : Nesting) : List Nat :=
  nesting.blocks.map (·.line)

/-- The line that takes the block of a header off the stack. -/
def popped? (header : Nat) : Nesting → List Line → Option Nat
  | _, [] => none
  | nesting, line :: lines =>
    if header ∈ (nesting.advance line).headers then popped? header (nesting.advance line) lines
    else some line.number

/-- The block that a line opens, or holds, given the lines behind it. -/
def site? (nesting : Nesting) (line : Line) (lines : List Line) : Option Site :=
  match line.shape with
  | .blockOpen .. =>
    some (line.site nesting.headers (popped? line.number (nesting.advance line) lines))
  | .inlineBlock .. => some (line.site nesting.headers (some line.number))
  | _ => none

/-- The blocks that the stack passes through. -/
def sites : Nesting → List Line → List Site
  | _, [] => []
  | nesting, line :: lines =>
    (nesting.site? line lines).toList ++ sites (nesting.advance line) lines

end Nesting

/-- The blocks of classified lines. -/
def Lexed.sites (lexed : Lexed) : List Site :=
  ({} : Nesting).sites lexed.lines

/-- Whether a line closes a block with children at a depth. -/
def Line.closesAt (depth : Nat) (line : Line) : Bool :=
  line.shape = .blockClose && line.depth = depth

/-- The blocks of lines, each ended by the first brace at the depth of its children. -/
def Line.scan (around : List Nat) : List Line → List Site
  | [] => []
  | line :: lines =>
    match line.shape with
    | .blockOpen .. =>
      line.site around ((lines.find? (closesAt (line.depth + 1))).map (·.number)) ::
        scan (line.number :: around) lines
    | .inlineBlock .. => line.site around (some line.number) :: scan around lines
    | .blockClose => scan around.tail lines
    | _ => scan around lines

section Scan

variable {reads : Level → Line → Prop} {depth : Nat} {lines : List Line} {entries : List Entry}
  {final : Level} {line : Line}

theorem Line.closesAt_of_not_close (notClose : line.shape ≠ .blockClose) (depth : Nat) :
    line.closesAt depth = false := by
  simp [closesAt, notClose]

theorem Line.scan_of_segment (inSegment : line.shape.inSegment = true) (around : List Nat)
    (lines : List Line) : scan around (line :: lines) = scan around lines := by
  rw [scan]
  cases shape : line.shape with
  | blockOpen | inlineBlock | blockClose => simp [shape, Shape.inSegment] at inSegment
  | _ => rfl

theorem Line.closesAt_of_segment (inSegment : line.shape.inSegment = true) (depth : Nat) :
    line.closesAt depth = false := by
  refine closesAt_of_not_close (fun close => ?_) depth
  rw [close] at inSegment
  cases inSegment

/-- Lines of segments neither open nor close blocks. -/
theorem Line.scan_append {segment : List Line}
    (inSegment : ∀ line ∈ segment, line.shape.inSegment = true) (rest : List Line) :
    (∀ around, scan around (segment ++ rest) = scan around rest) ∧
      ∀ depth, (segment ++ rest).find? (closesAt depth) = rest.find? (closesAt depth) := by
  induction segment with
  | nil => exact ⟨fun _ => rfl, fun _ => rfl⟩
  | cons line segment ih =>
    have here := inSegment line mem_cons_self
    obtain ⟨scan, found⟩ := ih (forall_mem_cons.mp inSegment).2
    refine ⟨fun around => ?_, fun depth => ?_⟩
    · rw [cons_append, scan_of_segment here, scan]
    · rw [cons_append, find?_cons_of_neg (by simp [closesAt_of_segment here]), found]

section Segments

variable {opening : Line} {body : List Line} {key value : Text} {readable : Line → Prop}
  (opens : opening.shape = .segmentOpen key value)
  (content : ∀ line ∈ body, readable line ∧ line.shape = .segmentContent)
include opens content

theorem Line.inSegment_of_content : ∀ line ∈ opening :: body, line.shape.inSegment = true :=
  forall_mem_cons.mpr ⟨by rw [opens]; rfl, fun line inBody => by rw [(content line inBody).2]; rfl⟩

/-- The lines of a segment, in front of others. -/
theorem Line.scan_closed {closing : Line} (closes : closing.shape = .segmentClose)
    (rest : List Line) :
    (∀ around, scan around (opening :: body ++ closing :: rest) = scan around rest) ∧
      ∀ depth, (opening :: body ++ closing :: rest).find? (closesAt depth) =
        rest.find? (closesAt depth) := by
  have inSegment : ∀ line ∈ opening :: body ++ [closing], line.shape.inSegment = true :=
    forall_mem_append.mpr ⟨inSegment_of_content opens content,
      forall_mem_singleton.mpr (by rw [closes]; rfl)⟩
  simpa only [append_assoc, singleton_append] using scan_append inSegment rest

end Segments

/-- Entries are cut at the first closing brace of their lines. -/
theorem Entries.close_eq_find? (grouped : Entries reads depth lines entries final) (inside : Nat) :
    (Entry.cutAtClose inside entries).2.1 = lines.find? (Line.closesAt inside) := by
  induction grouped with
  | nil => rfl
  | @single _ line lines entries _ _ _ _ _ ih =>
    by_cases closes : line.closesAt inside = true
    · have found : (Entry.single line).closing? inside = some line := by
        simpa [Entry.closing?, Line.closesAt] using closes
      rw [find?_cons_of_pos closes, Entry.cutAtClose, found]
    · have notHere : (Entry.single line).closing? inside = none := by
        simpa [Entry.closing?, Line.closesAt] using closes
      rw [find?_cons_of_neg closes, Entry.cutAtClose_cons_none notHere]
      exact ih
  | @inline _ line _ _ _ _ _ _ shape _ ih =>
    have inSegment : line.shape.inSegment = true := by
      rw [shape]
      rfl
    rw [find?_cons_of_neg (by simp [Line.closesAt_of_segment inSegment]),
      Entry.cutAtClose_cons_none rfl]
    exact ih
  | @closed _ opening closing _ _ body lines _ _ _ shape content _ close _ ih =>
    rw [(Line.scan_closed shape content close lines).2, Entry.cutAtClose_cons_none rfl]
    exact ih
  | @unfinished _ opening _ _ body _ shape content =>
    rw [Entry.cutAtClose_cons_none rfl, eq_comm]
    refine find?_eq_none.mpr fun line member => ?_
    simp [Line.closesAt_of_segment (Line.inSegment_of_content shape content line member)]

/-- The blocks of entries are those of their lines. -/
theorem Entries.sites_eq_scan (grouped : Entries reads depth lines entries final)
    (around : List Nat) :
    (Entry.nodes around entries).map BlockNode.toSite = Line.scan around lines := by
  induction grouped generalizing around with
  | nil => rfl
  | @single _ line lines entries _ _ _ _ later ih =>
    rw [Line.scan]
    cases shape : line.shape with
    | blockOpen key name =>
      have close := later.close_eq_find? (line.depth + 1)
      dsimp only
      rw [Entry.nodes_of_opens (by rw [shape]; rfl), map_cons, ih, ← close]
      rfl
    | inlineBlock key name value =>
      rw [Entry.nodes, shape]
      dsimp only
      rw [map_cons, ih]
      rfl
    | blockClose => rw [Entry.nodes_of_closes shape, ih]
    | _ =>
      rw [Entry.nodes, shape]
      exact ih around
  | @inline _ line _ _ _ _ _ _ shape _ ih =>
    rw [Line.scan_of_segment (by rw [shape]; rfl), ← ih]
    rfl
  | @closed _ opening closing _ _ body lines _ _ _ shape content _ close _ ih =>
    rw [(Line.scan_closed shape content close lines).1, ← ih]
    rfl
  | @unfinished _ opening _ _ body _ shape content =>
    have scan := (Line.scan_append (Line.inSegment_of_content shape content) []).1 around
    rw [append_nil] at scan
    rw [scan]
    rfl

end Scan

namespace Nesting

/-- Lines whose numbers follow those of the open headers, in increasing order. -/
def Fresh (nesting : Nesting) (lines : List Line) : Prop :=
  (nesting.headers.reverse ++ lines.map Line.number).Pairwise (· < ·)

section Stack

variable {properties : List Text} {nesting : Nesting} {line : Line} {lines : List Line}
  {final : Level}

theorem headers_advance_of_opens (opens : line.shape.opensBlock = true) :
    (nesting.advance line).headers = line.number :: nesting.headers := by
  rw [headers, blocks_advance_of_opens opens]
  rfl

theorem headers_advance_of_closes (closes : line.shape = .blockClose) :
    (nesting.advance line).headers = nesting.headers.tail := by
  rw [headers, blocks_advance_of_closes closes, headers, map_tail]

theorem headers_advance_of_plain (notOpen : line.shape.opensBlock = false)
    (notClose : line.shape ≠ .blockClose) : (nesting.advance line).headers = nesting.headers := by
  rw [headers, blocks_advance_of_plain notOpen notClose]
  rfl

/-- Behind a line the later ones still follow. -/
theorem Fresh.advance (fresh : nesting.Fresh (line :: lines)) :
    (nesting.advance line).Fresh lines := by
  unfold Fresh at fresh ⊢
  rw [map_cons] at fresh
  have less : (nesting.headers.reverse ++ lines.map Line.number).Sublist
      (nesting.headers.reverse ++ line.number :: lines.map Line.number) :=
    (sublist_cons_self _ _).append_left _
  rcases line.shape.bracket_cases with opens | closes | ⟨notOpen, notClose⟩
  · rw [headers_advance_of_opens opens, reverse_cons, append_assoc]
    exact fresh
  · rw [headers_advance_of_closes closes]
    refine (fresh.sublist less).sublist (Sublist.append_right ?_ _)
    exact (tail_sublist _).reverse
  · rw [headers_advance_of_plain notOpen notClose]
    exact fresh.sublist less

/-- The number of a line is neither that of an open header nor of a later line. -/
theorem Fresh.not_mem (fresh : nesting.Fresh (line :: lines)) :
    line.number ∉ nesting.headers ∧ ∀ later ∈ lines, later.number ≠ line.number := by
  unfold Fresh at fresh
  rw [map_cons, pairwise_append, pairwise_cons] at fresh
  obtain ⟨-, ⟨after, -⟩, across⟩ := fresh
  refine ⟨fun member => ?_, fun later member => ?_⟩
  · exact Nat.lt_irrefl _ (across _ (mem_reverse.mpr member) _ mem_cons_self)
  · exact Nat.ne_of_gt (after _ (mem_map_of_mem member))

/-- A block that is on the stack is taken off by the first closing brace at the depth of its
children. -/
theorem popped?_eq_find? (run : Run (Line.ReadAt properties) nesting.level lines final)
    {upper lower : List OpenBlock} {block : OpenBlock}
    (stack : nesting.blocks = upper ++ block :: lower)
    (others : ∀ other ∈ lower, other.line ≠ block.line) :
    nesting.popped? block.line lines =
      (lines.find? (Line.closesAt (lower.length + 1))).map (·.number) := by
  induction lines generalizing nesting upper with
  | nil => rfl
  | cons line lines ih =>
    cases run with
    | cons read later =>
      rw [← level_advance] at later
      have depth : line.depth = upper.length + (lower.length + 1) := by
        rw [read.depth, level, depth, stack, length_append, length_cons]
      have goesOn : ∀ upper', (nesting.advance line).blocks = upper' ++ block :: lower →
          line.closesAt (lower.length + 1) = false →
          nesting.popped? block.line (line :: lines) =
            ((line :: lines).find? (Line.closesAt (lower.length + 1))).map (·.number) := by
        intro upper' next notHere
        have isOpen : block.line ∈ (nesting.advance line).headers := by
          simp [headers, next]
        rw [popped?, if_pos isOpen, ih later next, find?_cons_of_neg (by simp [notHere])]
      rcases line.shape.bracket_cases with opens | closes | ⟨notOpen, notClose⟩
      · refine goesOn (line.openBlock :: upper) ?_ ?_
        · rw [blocks_advance_of_opens opens, stack, cons_append]
        · exact Line.closesAt_of_not_close (Shape.ne_blockClose_of_opens opens) _
      · have next : (nesting.advance line).blocks = nesting.blocks.tail :=
          blocks_advance_of_closes closes
        rw [stack] at next
        cases upper with
        | nil =>
          have taken : block.line ∉ (nesting.advance line).headers := by
            rw [headers, next]
            simpa using others
          have here : line.closesAt (lower.length + 1) = true := by
            simp [Line.closesAt, closes, depth]
          rw [popped?, if_neg taken, find?_cons_of_pos here]
          rfl
        | cons first upper =>
          refine goesOn upper next ?_
          simp only [Line.closesAt, depth, length_cons, Bool.and_eq_false_iff,
            decide_eq_false_iff_not]
          omega
      · refine goesOn upper ?_ (Line.closesAt_of_not_close notClose _)
        rw [blocks_advance_of_plain notOpen notClose, stack]

/-- The blocks that the stack passes through are those of the lines. -/
theorem sites_eq_scan (run : Run (Line.ReadAt properties) nesting.level lines final)
    (fresh : nesting.Fresh lines) : nesting.sites lines = Line.scan nesting.headers lines := by
  induction lines generalizing nesting with
  | nil => rfl
  | cons line lines ih =>
    cases run with
    | cons read later =>
      rw [← level_advance] at later
      have rest := ih later fresh.advance
      rw [sites, site?, rest, Line.scan]
      cases shape : line.shape with
      | blockOpen key name =>
        have opens : line.shape.opensBlock = true := by
          rw [shape]
          rfl
        have others : ∀ other ∈ nesting.blocks, other.line ≠ line.openBlock.line := by
          intro other member same
          exact fresh.not_mem.1 (mem_map.mpr ⟨other, member, same⟩)
        have top : (nesting.advance line).blocks = [] ++ line.openBlock :: nesting.blocks :=
          blocks_advance_of_opens opens
        have popped := popped?_eq_find? later top others
        have height : nesting.blocks.length = line.depth := read.depth.symm
        rw [height] at popped
        rw [headers_advance_of_opens opens, ← popped]
        rfl
      | blockClose => rw [headers_advance_of_closes shape]; rfl
      | _ =>
        rw [headers_advance_of_plain (by rw [shape]; rfl) (by simp [shape])]
        rfl

/-- A header that is open behind lines was open before, or is one of them. -/
theorem mem_headers_foldl {header : Nat} (open_ : header ∈ (lines.foldl advance nesting).headers) :
    header ∈ nesting.headers ∨
      ∃ line ∈ lines, line.shape.opensBlock = true ∧ line.number = header := by
  induction lines generalizing nesting with
  | nil => exact .inl open_
  | cons line lines ih =>
    rcases ih open_ with before | ⟨later, member, opens, same⟩
    · rcases line.shape.bracket_cases with opens | closes | ⟨notOpen, notClose⟩
      · rw [headers_advance_of_opens opens] at before
        rcases mem_cons.mp before with rfl | old
        · exact .inr ⟨line, mem_cons_self, opens, rfl⟩
        · exact .inl old
      · rw [headers_advance_of_closes closes] at before
        exact .inl (mem_of_mem_tail before)
      · rw [headers_advance_of_plain notOpen notClose] at before
        exact .inl before
    · exact .inr ⟨later, mem_cons_of_mem _ member, opens, same⟩

/-- A block is never taken off exactly if it is on the stack at the end. -/
theorem popped?_eq_none_iff {header : Nat} (open_ : header ∈ nesting.headers)
    (new : ∀ line ∈ lines, line.number ≠ header) :
    nesting.popped? header lines = none ↔ header ∈ (lines.foldl advance nesting).headers := by
  induction lines generalizing nesting with
  | nil => simpa [popped?] using open_
  | cons line lines ih =>
    have later := (forall_mem_cons.mp new).2
    rw [popped?, foldl_cons]
    split
    next still => exact ih still later
    next taken =>
      refine ⟨by simp, fun left => ?_⟩
      rcases mem_headers_foldl left with before | ⟨other, member, -, same⟩
      · exact absurd before taken
      · exact absurd same (later other member)

/-- A block has no end exactly if it is on the stack at the end. -/
theorem endLine_eq_none_iff (fresh : nesting.Fresh lines) :
    ∀ site ∈ nesting.sites lines,
      (site.endLine = none ↔ site.startLine ∈ (lines.foldl advance nesting).headers) := by
  induction lines generalizing nesting with
  | nil => simp [sites]
  | cons line lines ih =>
    intro site member
    rw [sites] at member
    rcases mem_append.mp member with here | later
    · obtain ⟨notOpen, new⟩ := fresh.not_mem
      rw [Option.mem_toList, site?] at here
      split at here
      next shape =>
        cases here
        have opens : line.shape.opensBlock = true := by
          rw [shape]
          rfl
        exact popped?_eq_none_iff (by simp [headers_advance_of_opens opens]) new
      next shape =>
        cases here
        refine ⟨fun none_ => (nomatch none_), fun left => ?_⟩
        rcases mem_headers_foldl left with before | ⟨other, member, opens, same⟩
        · exact absurd before notOpen
        · rcases mem_cons.mp member with rfl | old
          · rw [shape] at opens
            cases opens
          · exact absurd same (new other old)
      next => cases here
    · exact ih fresh.advance site later

end Stack

/-- There is one block for every header, in order. -/
theorem headers_sites (nesting : Nesting) (lines : List Line) :
    (nesting.sites lines).map (fun site => (site.startLine, site.role)) =
      (lines.filter fun line => line.shape.isHeader).map fun line => (line.number, line.role) := by
  induction lines generalizing nesting with
  | nil => rfl
  | cons line lines ih =>
    rw [sites, site?, map_append, ih, filter_cons]
    cases line.shape <;> rfl

/-- The blocks reported as unterminated are those on the stack. -/
theorem mem_leftovers_iff {nesting : Nesting} {header : Nat} :
    (∃ label, ⟨header, .unterminatedBlock label⟩ ∈ nesting.leftovers) ↔
      header ∈ nesting.headers := by
  rw [leftovers, headers]
  constructor
  · rintro ⟨label, member⟩
    rcases mem_append.mp member with segment | block
    · obtain ⟨open_, -, ⟨⟩⟩ := mem_map.mp segment
    · obtain ⟨open_, inBlocks, ⟨⟩⟩ := mem_map.mp block
      exact mem_map_of_mem inBlocks
  · intro member
    obtain ⟨block, inBlocks, rfl⟩ := mem_map.mp member
    exact ⟨block.label, mem_append_right _ (mem_map.mpr ⟨block, inBlocks, rfl⟩)⟩

end Nesting

theorem Line.anomaly?_ne_unterminatedBlock (line : Line) (number : Nat) (label : Text) :
    line.anomaly? ≠ some ⟨number, .unterminatedBlock label⟩ := by
  intro shows
  cases stage_of_anomaly shows

/-- A document that shows every block of the classified lines once: in the role that its
header gives it, inside the blocks on the stack, and ended by the line that takes it off.
Blocks without end are those reported as unterminated. -/
structure Document.IsBlockTree (document : Document) (lexed : Lexed) : Prop where
  headers : lexed.sites.map (fun site => (site.startLine, site.role)) =
    (lexed.lines.filter fun line => line.shape.isHeader).map fun line => (line.number, line.role)
  sites : (document.nodes.map BlockNode.toSite).Perm lexed.sites
  ended : ∀ site ∈ lexed.sites, site.endLine = none ↔
    ∃ label, ⟨site.startLine, .unterminatedBlock label⟩ ∈ lexed.anomalies

/-- The blocks of a document are those that the braces of its text match. -/
theorem Document.isBlockTree_ofText (properties : List Text) (text : Text) :
    (Document.ofText properties text).IsBlockTree (.ofText properties text) := by
  have run := Lexed.run_ofText properties text
  have readAt : ∀ level line, Line.ReadAt properties level line → line.ReadAt properties level :=
    fun _ _ read => read
  have fresh : ({} : Nesting).Fresh (Lexed.ofText properties text).lines :=
    List.pairwise_map.mpr (Lexed.ascending_ofText properties text)
  refine ⟨Nesting.headers_sites _ _, ?_, ?_⟩
  · have scan := (Run.entries readAt run).sites_eq_scan []
    have perm := (Document.perm_nodes readAt run).map BlockNode.toSite
    rw [scan] at perm
    rw [Lexed.sites, Nesting.sites_eq_scan run fresh]
    exact perm
  · intro site member
    rw [Nesting.endLine_eq_none_iff fresh site member, ← Nesting.mem_leftovers_iff]
    refine exists_congr fun label => ?_
    rw [Lexed.ofText, List.mem_append, or_iff_right]
    intro shown
    obtain ⟨line, -, same⟩ := List.mem_filterMap.mp shown
    exact line.anomaly?_ne_unterminatedBlock _ _ same

/-- Entries keyed by the first occurrence of every key. -/
structure Keyed.FirstOf (entries : Keyed Text) (occurrences : List (Text × Text)) : Prop where
  keys : entries.map Prod.fst = (occurrences.map Prod.fst).eraseDups
  values : ∀ key, entries.get? key = occurrences.lookup key

/-- Whether an entry begins behind a line and before another. -/
def Entry.isBetween (start : Nat) (stop : Option Nat) (entry : Entry) : Bool :=
  start < entry.opening.number && stop.all (entry.opening.number < ·)

/-- The properties and segments at a depth between two lines. -/
def Lexed.occurrences (lexed : Lexed) (depth start : Nat) (stop : Option Nat) :
    List (Text × Text) :=
  ((Entry.group lexed.lines).filter (Entry.isBetween start stop)).filterMap (Entry.property? depth)

/-- A document whose blocks have the properties between their braces at the depth of their
children, and no others. -/
def Document.ScopesProperties (document : Document) (lexed : Lexed) : Prop :=
  ∀ node ∈ document.nodes, ∀ header ∈ lexed.lines, header.number = node.startLine →
    header.shape.opensBlock = true →
    node.properties.FirstOf
      (lexed.occurrences (header.depth + 1) node.startLine node.endLine)

section Occurrences

theorem eraseDups_filter (test : Text → Bool) (keys : List Text) :
    (keys.filter test).eraseDups = keys.eraseDups.filter test := by
  -- `eraseDups` goes on with a filtered list, so the induction is on the length.
  induction length : keys.length using Nat.strong_induction_on generalizing keys with
  | _ length_ ih =>
    cases keys with
    | nil => rfl
    | cons key keys =>
      have shorter : (keys.filter fun other => !other == key).length < length_ := by
        have := length_filter_le (fun other => !other == key) keys
        rw [← length, length_cons]
        omega
      have later := ih _ shorter (keys.filter fun other => !other == key) rfl
      rw [eraseDups_cons, filter_cons]
      by_cases passes : test key = true
      · rw [if_pos passes, filter_cons_of_pos passes, eraseDups_cons, ← later,
          filter_filter, filter_filter]
        simp only [Bool.and_comm]
      · rw [if_neg passes, filter_cons_of_neg passes, ← later, filter_filter]
        congr 1
        refine filter_congr fun other _ => ?_
        by_cases same : other = key
        · simp [same, passes]
        · simp [same]

theorem Keyed.lookup_filter {key other : Text} (different : key ≠ other) (entries : Keyed Text) :
    (entries.filter fun entry => entry.1 ≠ other).lookup key = entries.lookup key := by
  induction entries with
  | nil => rfl
  | cons entry entries ih =>
    obtain ⟨found, value⟩ := entry
    by_cases same : found = other
    · subst same
      have notHere : (key == found) = false := beq_eq_false_iff_ne.mpr different
      rw [filter_cons_of_neg (by simp), ih, lookup_cons, notHere]
    · rw [filter_cons_of_pos (by simp [same]), lookup_cons, lookup_cons, ih]

/-- Keyed entries keep the first occurrence of every key. -/
theorem Keyed.firstOf_ofOccurrences (occurrences : List (Text × Text)) :
    (ofOccurrences occurrences).FirstOf occurrences := by
  induction occurrences with
  | nil => exact ⟨rfl, fun _ => rfl⟩
  | cons occurrence occurrences ih =>
    obtain ⟨key, value⟩ := occurrence
    refine ⟨?_, fun wanted => ?_⟩
    · have filtered : ((ofOccurrences occurrences).filter fun entry => entry.1 ≠ key).map
          Prod.fst = ((ofOccurrences occurrences).map Prod.fst).filter fun other =>
            !other == key := by
        rw [filter_map]
        congr 1
        refine filter_congr fun entry _ => ?_
        by_cases same : entry.1 = key <;> simp [same]
      rw [ofOccurrences, map_cons, map_cons, eraseDups_cons, filtered, ih.keys,
        eraseDups_filter]
    · have later := ih.values wanted
      rw [get?] at later ⊢
      rw [ofOccurrences, lookup_cons, lookup_cons]
      by_cases same : wanted = key
      · simp [same]
      · rw [lookup_filter same, later]

/-- The block that a line opens or holds, given the entries behind it. -/
inductive Line.HasNode (line : Line) (rest : List Entry) : BlockNode → Prop
  | block (opens : line.shape.opensBlock = true) (around : List Nat) :
      HasNode line rest (line.blockNode around rest)
  | inline (notOpen : line.shape.opensBlock = false) (around : List Nat) :
      HasNode line rest (line.inlineNode around)

theorem Line.HasNode.startLine {line : Line} {rest : List Entry} {node : BlockNode}
    (found : line.HasNode rest node) : node.startLine = line.number := by
  cases found <;> rfl

/-- Every block of entries is that of one of their lines. -/
theorem Entry.exists_of_mem_nodes {node : BlockNode} {around : List Nat} {entries : List Entry}
    (member : node ∈ nodes around entries) :
    ∃ front line rest, entries = front ++ .single line :: rest ∧ line.HasNode rest node := by
  induction entries generalizing around with
  | nil => cases member
  | cons entry entries ih =>
    -- A block further behind has the first entry in front of it as well.
    have later : ∀ {around}, node ∈ nodes around entries →
        ∃ front line rest, entry :: entries = front ++ .single line :: rest ∧
          line.HasNode rest node := by
      intro around member
      obtain ⟨front, line, rest, whole, found⟩ := ih member
      exact ⟨entry :: front, line, rest, by rw [whole]; rfl, found⟩
    cases entry with
    | grouped segment => exact later member
    | single line =>
      rw [nodes] at member
      split at member
      next shape =>
        rcases mem_cons.mp member with rfl | behind
        · exact ⟨[], line, entries, rfl, .block (by rw [shape]; rfl) around⟩
        · exact later behind
      next shape =>
        rcases mem_cons.mp member with rfl | behind
        · exact ⟨[], line, entries, rfl, .inline (by rw [shape]; rfl) around⟩
        · exact later behind
      next => exact later member
      next => exact later member

/-- Every block of a document is that of one of its lines. -/
theorem Document.exists_of_mem_nodes {properties : List Text} {text : Text} {node : BlockNode}
    (member : node ∈ (ofText properties text).nodes) :
    ∃ front line rest, Entry.group (Lexed.ofText properties text).lines =
        front ++ .single line :: rest ∧
      line ∈ (Lexed.ofText properties text).lines ∧ line.HasNode rest node := by
  have run := Lexed.run_ofText properties text
  have inEntries := (perm_nodes .refl run).subset member
  obtain ⟨front, line, rest, whole, found⟩ := Entry.exists_of_mem_nodes inEntries
  have entries := Run.entries .refl run
  exact ⟨front, line, rest, whole, entries.mem_of_single (by simp [whole]), found⟩

/-- Entries begin with different lines, in order. -/
theorem Entry.openings_sublist (lines : List Line) :
    ((group lines).map opening).Sublist lines := by
  have inLines (entries : List Entry) :
      (entries.map Entry.opening).Sublist (entries.flatMap Entry.lines) := by
    induction entries with
    | nil => exact .slnil
    | cons entry entries ih =>
      cases entry with
      | single line => exact ih.cons_cons _
      | grouped segment => exact (ih.trans (sublist_append_right _ _)).cons_cons _
  simpa only [flatMap_lines_group] using inLines (group lines)

theorem Entries.openings_sublist {reads : Level → Line → Prop} {depth : Nat} {lines : List Line}
    {entries : List Entry} {final : Level} (grouped : Entries reads depth lines entries final) :
    (entries.map Entry.opening).Sublist lines :=
  grouped.eq_group ▸ Entry.openings_sublist lines

/-- Cutting entries at a closing brace loses nothing. -/
theorem Entry.cutAtClose_parts (depth : Nat) (entries : List Entry) :
    entries = (cutAtClose depth entries).1 ++
        ((cutAtClose depth entries).2.1.toList.map .single ++
          (cutAtClose depth entries).2.2) ∧
      ((cutAtClose depth entries).2.1 = none → (cutAtClose depth entries).2.2 = []) := by
  induction entries with
  | nil => exact ⟨rfl, fun _ => rfl⟩
  | cons entry entries ih =>
    cases found : entry.closing? depth with
    | none =>
      rw [cutAtClose_cons_none found]
      exact ⟨by rw [cons_append, ← ih.1], ih.2⟩
    | some line =>
      have same : entry = .single line := by
        cases entry with
        | grouped => cases found
        | single other =>
          rw [closing?] at found
          split at found
          next =>
            cases found
            rfl
          next => cases found
      simp only [cutAtClose, found]
      exact ⟨by rw [same]; rfl, fun none_ => absurd none_ (Option.some_ne_none line)⟩

/-- Among entries in order, those between a header and its closing brace are those it is cut
at. -/
theorem Entry.filter_isBetween {front rest : List Entry} {header : Line} {depth : Nat}
    (ascending : Ascending ((front ++ .single header :: rest).map opening)) :
    (front ++ .single header :: rest).filter
        (isBetween header.number ((cutAtClose depth rest).2.1.map (·.number))) =
      (cutAtClose depth rest).1 := by
  obtain ⟨parts, unclosed⟩ := cutAtClose_parts depth rest
  generalize cutAtClose depth rest = cut at parts unclosed ⊢
  obtain ⟨inner, close, behind⟩ := cut
  dsimp only at parts unclosed ⊢
  subst parts
  unfold Ascending at ascending
  rw [map_append, map_cons, map_append, pairwise_append, pairwise_cons,
    pairwise_append] at ascending
  obtain ⟨-, ⟨after, -, tail, across⟩, before⟩ := ascending
  have noFront : front.filter (isBetween header.number (close.map (·.number))) = [] := by
    refine filter_eq_nil_iff.mpr fun entry member => ?_
    have less := before _ (mem_map_of_mem member) header mem_cons_self
    simp only [isBetween, Bool.and_eq_true, decide_eq_true_eq]
    omega
  have notHeader : isBetween header.number (close.map (·.number)) (.single header) = false := by
    simp [isBetween, opening]
  have allInner : inner.filter (isBetween header.number (close.map (·.number))) = inner := by
    refine filter_eq_self.mpr fun entry member => ?_
    have less : header.number < entry.opening.number :=
      after _ (mem_append_left _ (mem_map_of_mem member))
    cases close with
    | none => simp [isBetween, less]
    | some line =>
      have below := across _ (mem_map_of_mem member) line (by simp [opening])
      simp [isBetween, less, below]
  have noTail : (close.toList.map single ++ behind).filter
      (isBetween header.number (close.map (·.number))) = [] := by
    cases close with
    | none => simp [unclosed rfl]
    | some line =>
      rw [map_append, Option.toList_some, map_cons, map_nil, map_cons,
        map_nil, singleton_append, pairwise_cons] at tail
      refine filter_eq_nil_iff.mpr fun entry member => ?_
      have reached : line.number ≤ entry.opening.number := by
        rcases mem_cons.mp member with rfl | later
        · exact Nat.le_refl _
        · exact Nat.le_of_lt (tail.1 _ (mem_map_of_mem later))
      simp only [isBetween, Option.map_some, Option.all_some, Bool.and_eq_true,
        decide_eq_true_eq]
      omega
  rw [filter_append, noFront, filter_cons_of_neg (by simp [notHeader]),
    filter_append, allInner, noTail, nil_append, append_nil]

end Occurrences

/-- Every block of a document has the properties between its braces. -/
theorem Document.scopesProperties_ofText (properties : List Text) (text : Text) :
    (Document.ofText properties text).ScopesProperties (.ofText properties text) := by
  intro node member header inLines number opens
  have ascending := Lexed.ascending_ofText properties text
  obtain ⟨front, line, rest, whole, member, found⟩ := Document.exists_of_mem_nodes member
  obtain rfl := ascending.eq_of_number inLines member (number.trans found.startLine)
  cases found with
  | inline notOpen =>
    rw [opens] at notOpen
    cases notOpen
  | block _ around =>
    have openings := ascending.sublist (Entry.openings_sublist _)
    rw [whole] at openings
    have occurrences : (Lexed.ofText properties text).occurrences (header.depth + 1)
        (header.blockNode around rest).startLine (header.blockNode around rest).endLine =
        (Entry.cutAtClose (header.depth + 1) rest).1.filterMap
          (Entry.property? (header.depth + 1)) := by
      rw [Lexed.occurrences, whole]
      exact congrArg (List.filterMap _) (Entry.filter_isBetween openings)
    rw [occurrences]
    exact Keyed.firstOf_ofOccurrences _

end LookML
