import LookML.Lint.Result
import LookML.Proofs.Annotations
import LookML.Proofs.BlockTree

/-!
# Declarations that both readers find

The fallback reader looks for headers by their text alone, from left to right, and never inside
what it has taken for a declaration.  A header at the beginning of a line ends every declaration
that is read before it, so nothing can hide it: each view, explore and model that is found by
structure and whose header is plainly written has its name in the fallback model as well.
-/

namespace LookML

open Text Code List

variable {α : Type} {text name type : Text} {properties : List Text}

namespace Text

/-- A scan gets to a place if no occurrence that begins before it reaches beyond it. -/
theorem exists_scanFrom_append {recognise : Option Char → Text → Option (α × Nat)}
    {pending : Nat} (front rest : Text) (before : Option Char) (fits : pending ≤ front.length)
    (short : ∀ lead last, front = lead ++ last → last ≠ [] → ∀ before value taken,
      recognise before (last ++ rest) = some (value, taken) → taken ≤ last.length) :
    ∃ pieces, scanFrom recognise before pending (front ++ rest) =
      pieces ++ scanFrom recognise (front.getLast?.or before) 0 rest := by
  -- What an occurrence still takes never exceeds what is left in front of the place.
  induction front generalizing before pending with
  | nil =>
    obtain rfl : pending = 0 := Nat.le_zero.mp fits
    exact ⟨[], rfl⟩
  | cons c front ih =>
    have later (lead last : Text) (same : front = lead ++ last) :=
      short (c :: lead) last (congrArg (List.cons c) same)
    rw [getLast?_cons_or]
    cases pending with
    | succ pending => exact ih (some c) (Nat.le_of_succ_le_succ fits) later
    | zero =>
      rw [cons_append, scanFrom]
      cases found : recognise before (c :: (front ++ rest)) with
      | none =>
        obtain ⟨pieces, scanned⟩ := ih (some c) (Nat.zero_le _) later
        exact ⟨.plain c :: pieces, congrArg (List.cons _) scanned⟩
      | some occurrence =>
        have bound := short [] (c :: front) rfl (cons_ne_nil c front) before
          occurrence.1 occurrence.2 found
        rw [length_cons] at bound
        have fits : occurrence.2 - 1 ≤ front.length := by omega
        obtain ⟨pieces, scanned⟩ := ih (some c) fits later
        exact ⟨.found occurrence.1 :: pieces, congrArg (List.cons _) scanned⟩

variable {stop : Text → Bool}

theorem exists_takeUntil? (ends : stop [] = true) (text : Text) :
    ∃ taken rest, takeUntil? stop text = some (taken, rest) := by
  induction text with
  | nil => exact ⟨[], [], by rw [takeUntil?, if_pos ends]⟩
  | cons c text ih =>
    obtain ⟨taken, rest, found⟩ := ih
    by_cases here : stop (c :: text) = true
    · exact ⟨[], c :: text, by rw [takeUntil?, if_pos here]⟩
    · exact ⟨c :: taken, rest, by rw [takeUntil?, if_neg here, found]; rfl⟩

/-- What is taken does not reach beyond a place to stop. -/
theorem length_le_of_takeUntil? {lead tail taken rest : Text} (stops : stop tail = true)
    (found : takeUntil? stop (lead ++ tail) = some (taken, rest)) : tail.length ≤ rest.length := by
  induction lead generalizing taken with
  | nil =>
    have here : takeUntil? stop tail = some ([], tail) := by
      cases tail <;> rw [takeUntil?, if_pos stops]
    rw [nil_append, here] at found
    cases found
    exact Nat.le_refl _
  | cons c lead ih =>
    rw [cons_append, takeUntil?] at found
    split at found
    · cases found
      simp only [length_cons, length_append]
      omega
    · obtain ⟨⟨inner, after⟩, later, same⟩ := Option.map_eq_some_iff.mp found
      cases same
      exact ih later

/-- The first line of a text stands at its beginning, any other behind a line feed. -/
theorem exists_of_splitBreaks {line : Text} {lines more : List Text}
    (split : splitBreaks text = lines ++ line :: more) :
    ∃ front rest, text = front ++ (line ++ rest) ∧
      (lines = [] ∧ front = [] ∨ lines ≠ [] ∧ ∃ lead, front = lead ++ ['\n']) := by
  induction text using splitBreaks.induct generalizing lines line with
  | case1 =>
    have single : [[]] = lines ++ line :: more := split
    rcases lines with _ | ⟨first, lines⟩
    · cases single
      exact ⟨[], [], rfl, .inl ⟨rfl, rfl⟩⟩
    · simp at single
  | case2 text ih =>
    rw [splitBreaks] at split
    rcases lines with _ | ⟨first, lines⟩
    · cases split
      exact ⟨[], _, rfl, .inl ⟨rfl, rfl⟩⟩
    · obtain ⟨front, rest, same, begins⟩ := ih (cons.inj split).2
      refine ⟨'\r' :: '\n' :: front, rest, by rw [same]; rfl, .inr ⟨cons_ne_nil _ _, ?_⟩⟩
      rcases begins with ⟨-, rfl⟩ | ⟨-, lead, rfl⟩
      · exact ⟨['\r'], rfl⟩
      · exact ⟨'\r' :: '\n' :: lead, rfl⟩
  | case3 text apart ih =>
    rw [splitBreaks_feed] at split
    rcases lines with _ | ⟨first, lines⟩
    · cases split
      exact ⟨[], _, rfl, .inl ⟨rfl, rfl⟩⟩
    · obtain ⟨front, rest, same, begins⟩ := ih (cons.inj split).2
      refine ⟨'\n' :: front, rest, by rw [same]; rfl, .inr ⟨cons_ne_nil _ _, ?_⟩⟩
      rcases begins with ⟨-, rfl⟩ | ⟨-, lead, rfl⟩
      · exact ⟨[], rfl⟩
      · exact ⟨'\n' :: lead, rfl⟩
  | case4 c text apart inner none_ => exact absurd none_ (splitBreaks_ne_nil text)
  | case5 c text apart inner first pieces found ih =>
    rw [splitBreaks_cons_of_inner inner (noFeed_of_apart apart) found] at split
    rcases lines with _ | ⟨_, lines⟩
    · cases split
      obtain ⟨front, rest, same, ⟨-, rfl⟩ | ⟨behind, -⟩⟩ :=
        ih (found.trans (nil_append _).symm)
      · exact ⟨[], rest, congrArg (List.cons c) same, .inl ⟨rfl, rfl⟩⟩
      · exact absurd rfl behind
    · obtain ⟨rfl, rfl⟩ := cons.inj split
      obtain ⟨front, rest, same, ⟨start, -⟩ | ⟨-, lead, rfl⟩⟩ :=
        ih (found.trans cons_append.symm)
      · cases start
      · exact ⟨c :: (lead ++ ['\n']), rest, congrArg (List.cons c) same,
          .inr ⟨cons_ne_nil _ _, c :: lead, rfl⟩⟩

end Text

namespace Lint.Fallback

variable {inner gap : Text}

/-- The types of the declarations that the reader looks for. -/
def declarationTypes : List Text :=
  ["view".toList, "explore".toList, "model".toList]

/-- The types are made of letters. -/
theorem not_mem_of_declarationTypes (known : type ∈ declarationTypes) :
    ':' ∉ type ∧ '\x7b' ∉ type ∧ '\n' ∉ type ∧ ∃ c rest, type = c :: rest ∧ isBlank c = false := by
  simp only [declarationTypes, mem_cons, not_mem_nil, or_false] at known
  rcases known with rfl | rfl | rfl <;> exact ⟨by decide, by decide, by decide, _, _, rfl, rfl⟩

theorem isPlainNameChar_of_isBlank {c : Char} (blank : isBlank c = true) :
    isPlainNameChar c = false := by
  have each : ∀ c ∈ blanks, isPlainNameChar c = false := by decide
  exact each c (mem_blanks blank)

/-- A header as the reader wants it, with what follows its brace. -/
structure IsPlainHeader (type name text inner : Text) : Prop where
  named : name ≠ [] ∧ ∀ c ∈ name, isPlainNameChar c = true
  spaced : ∃ gap second, gap ≠ [] ∧ allBlank gap = true ∧ allBlank second = true ∧
    text = type ++ ':' :: (gap ++ (name ++ (second ++ '\x7b' :: inner)))

theorem IsPlainHeader.append (header : IsPlainHeader type name text inner)
    (rest : Text) : IsPlainHeader type name (text ++ rest) (inner ++ rest) := by
  obtain ⟨named, gap, second, occupied, blank, blankSecond, rfl⟩ := header
  exact ⟨named, gap, second, occupied, blank, blankSecond, by simp⟩

/-- What is found at a place is a header with a body behind it. -/
theorem blockAt?_eq_some_iff {stop : Text → Bool} {before : Option Char} {body : Text}
    {taken : Nat} :
    blockAt? type stop before text = some ((name, body), taken) ↔
      before.any isWord = false ∧ ∃ inner rest, IsPlainHeader type name text inner ∧
        takeUntil? stop inner = some (body, rest) ∧ taken = text.length - rest.length := by
  simp only [blockAt?, Option.bind_eq_bind]
  constructor
  · intro found
    split at found
    next => cases found
    next apart =>
      obtain ⟨rest, lead, found⟩ := Option.bind_eq_some_iff.mp found
      split at found
      next => cases found
      next filled =>
        obtain ⟨inner, brace, found⟩ := Option.bind_eq_some_iff.mp found
        obtain ⟨⟨body', behind⟩, taken', found⟩ := Option.bind_eq_some_iff.mp found
        cases found
        refine ⟨by simpa using apart, inner, behind, ⟨⟨?_, ?_⟩, ?_⟩, taken', rfl⟩
        · exact fun empty => filled (.inr (List.isEmpty_iff.mpr empty))
        · exact fun c member => mem_takeWhile_imp member
        · obtain ⟨gap, blank, whole⟩ := exists_trimLeft rest
          obtain ⟨second, blankSecond, wholeSecond⟩ :=
            exists_trimLeft ((trimLeft rest).dropWhile isPlainNameChar)
          refine ⟨gap, second, ?_, blank, blankSecond, ?_⟩
          · rintro rfl
            exact filled (.inl (congrArg List.length whole))
          · have parts : rest.trimLeft = rest.trimLeft.takeWhile isPlainNameChar ++
                (second ++ '\x7b' :: inner) := by
              rw [after?_eq_some_iff.mp brace] at wholeSecond
              exact takeWhile_append_dropWhile.symm.trans (congrArg _ wholeSecond)
            rw [after?_eq_some_iff.mp lead, append_assoc, singleton_append, ← parts, ← whole]
  · rintro ⟨apart, inner, rest, ⟨⟨filled, plain⟩, gap, second, spaced, blank, blankSecond, rfl⟩,
      taken, rfl⟩
    obtain ⟨c, tail, rfl⟩ := exists_cons_of_ne_nil filled
    have solid : isBlank c = false := by
      by_contra blank
      have word := plain c mem_cons_self
      rw [isPlainNameChar_of_isBlank (by simpa using blank)] at word
      cases word
    have ends : ∀ d ∈ (second ++ '\x7b' :: inner).head?, isPlainNameChar d = false := by
      refine head_gap (fun d blank => isPlainNameChar_of_isBlank blank) blankSecond ?_
      rintro d ⟨⟩
      rfl
    have start : trimLeft (gap ++ (c :: tail ++ (second ++ '\x7b' :: inner))) =
        c :: tail ++ (second ++ '\x7b' :: inner) :=
      trimLeft_gap blank solid _
    have lead : after? (type ++ [':'])
        (type ++ ':' :: (gap ++ (c :: tail ++ (second ++ '\x7b' :: inner)))) =
        some (gap ++ (c :: tail ++ (second ++ '\x7b' :: inner))) :=
      after?_eq_some_iff.mpr (by simp)
    have longer : ¬ (gap ++ (c :: tail ++ (second ++ '\x7b' :: inner))).length =
        (c :: tail ++ (second ++ '\x7b' :: inner)).length := by
      have := length_pos_iff.mpr spaced
      rw [length_append]
      omega
    have brace : after? ['\x7b'] (trimLeft (second ++ '\x7b' :: inner)) = some inner := by
      rw [trimLeft_gap blankSecond rfl]
      exact after?_eq_some_iff.mpr rfl
    rw [if_neg (by simp [apart]), lead]
    simp only [Option.bind_some, start, takeWhile_append_of_head plain ends,
      dropWhile_append_of_head plain ends, brace, taken]
    rw [if_neg (by simpa using longer)]

/-- A place where a line begins with a declaration of a known type. -/
theorem endsDeclaration_of_header (known : type ∈ declarationTypes)
    (blank : allBlank gap = true) (tail : Text) :
    endsDeclaration ('\n' :: (gap ++ (type ++ ':' :: tail))) = true := by
  obtain ⟨-, -, -, c, rest, rfl, solid⟩ := not_mem_of_declarationTypes known
  have mark : (c :: rest) ++ [':'] ∈ ["view:".toList, "explore:".toList, "model:".toList] :=
    mem_map_of_mem (f := (· ++ [':'])) known
  have starts : ((c :: rest) ++ [':']).isPrefixOf (trimLeft (gap ++ (c :: rest ++ ':' :: tail))) =
      true := by
    rw [cons_append, cons_append, trimLeft_gap blank solid, isPrefixOf_iff_prefix]
    exact ⟨tail, by simp⟩
  rw [endsDeclaration, Bool.or_eq_true]
  exact .inl (any_eq_true.mpr ⟨_, mark, starts⟩)

/-- A header that begins before a line with a header of the same type has its brace before that
line as well: its name and its blanks hold no colon. -/
theorem exists_inner_of_header (known : type ∈ declarationTypes) {other lead tail : Text}
    (blank : allBlank gap = true)
    (header : IsPlainHeader type other (lead ++ '\n' :: (gap ++ (type ++ ':' :: tail))) inner) :
    ∃ front, inner = front ++ '\n' :: (gap ++ (type ++ ':' :: tail)) := by
  obtain ⟨noColon, noBrace, noFeed, -⟩ := not_mem_of_declarationTypes known
  obtain ⟨⟨-, plain⟩, space, second, -, blankSpace, blankSecond, whole⟩ := header
  have absent : ':' ∉ space ++ (other ++ second) := by
    simp only [mem_append, not_or]
    refine ⟨not_mem_of_allBlank blankSpace rfl, fun member => ?_,
      not_mem_of_allBlank blankSecond rfl⟩
    exact absurd (plain _ member) (by decide)
  have split : lead ++ '\n' :: (gap ++ (type ++ ':' :: tail)) =
      (type ++ ':' :: (space ++ (other ++ second)) ++ ['\x7b']) ++ inner := by
    rw [whole]
    simp
  rcases append_eq_append_iff.mp split with ⟨more, upTo, behind⟩ | ⟨more, -, behind⟩
  · -- The brace would stand behind the line feed, and so the second colon before it.
    rcases eq_nil_or_concat more with rfl | ⟨more, last, rfl⟩
    · exact ⟨[], by rw [nil_append, behind, nil_append]⟩
    · rw [concat_eq_append, ← append_assoc lead more] at upTo
      obtain ⟨front, brace⟩ := append_inj' upTo rfl
      obtain rfl := singleton_inj.mp brace
      have before : ('\n' :: (gap ++ type)) ++ ':' :: tail = more ++ '\x7b' :: inner := by
        simpa using behind
      rcases append_eq_append_iff.mp before with ⟨rest, same, after⟩ | ⟨rest, same, after⟩
      · cases rest with
        | nil => cases after
        | cons d rest =>
          obtain ⟨rfl, -⟩ := cons.inj after
          rw [same, ← append_assoc lead] at front
          have parts := (append_cons_inj_of_notMem noColon absent).mp front
          exact absurd (by rw [parts.1]; simp) noFeed
      · have member : '\x7b' ∈ '\n' :: (gap ++ type) := by
          cases rest with
          | nil => cases after
          | cons d rest =>
            obtain ⟨rfl, -⟩ := cons.inj after
            rw [same]
            simp
        simp only [mem_cons, mem_append] at member
        rcases member with feed | inGap | inType
        · cases feed
        · exact absurd inGap (not_mem_of_allBlank blank rfl)
        · exact absurd inType noBrace
  · exact ⟨more, behind⟩

/-- A plain header at the beginning of a line is found, whatever stands before it. -/
theorem mem_blocks_of_header (known : type ∈ declarationTypes) {front header : Text}
    (start : front = [] ∨ ∃ lead, front = lead ++ ['\n']) (blank : allBlank gap = true)
    (plain : IsPlainHeader type name header inner) :
    name ∈ (blocks type endsDeclaration (front ++ (gap ++ header))).map Prod.fst := by
  have apart (before : Text) (spaced : allBlank before = true) (text : Text)
      (filled : before ≠ []) :
      ∀ other inner, ¬ IsPlainHeader type other (before ++ text) inner := by
    rintro other inner ⟨-, _, _, -, -, -, whole⟩
    obtain ⟨-, -, -, c, rest, rfl, solid⟩ := not_mem_of_declarationTypes known
    exact filled (eq_nil_of_solid spaced (solid_head (by rw [whole]; rfl) solid))
  -- Nothing that is found before the header reaches beyond the line feed in front of it.
  have short : ∀ lead last, front ++ gap = lead ++ last → last ≠ [] → ∀ before value taken,
      blockAt? type endsDeclaration before (last ++ header) = some (value, taken) →
        taken ≤ last.length := by
    rintro lead last whole filled before ⟨other, body⟩ taken found
    obtain ⟨-, inside, rest, ahead, stops, rfl⟩ := blockAt?_eq_some_iff.mp found
    rcases start with rfl | ⟨front, rfl⟩
    · refine absurd ahead (apart last ?_ header filled other inside)
      rw [nil_append] at whole
      rw [whole, allBlank_append, Bool.and_eq_true] at blank
      exact blank.2
    · rw [append_assoc, singleton_append] at whole
      rcases append_eq_append_iff.mp whole with ⟨more, -, behind⟩ | ⟨more, -, rfl⟩
      · refine absurd ahead (apart last ?_ header filled other inside)
        have spaced : allBlank ('\n' :: gap) = true := by simp [blank]; rfl
        rw [behind, allBlank_append, Bool.and_eq_true] at spaced
        exact spaced.2
      · obtain ⟨-, space, second, -, -, -, rfl⟩ := plain
        rw [append_assoc, cons_append] at ahead
        obtain ⟨part, rfl⟩ := exists_inner_of_header known blank ahead
        have bound := length_le_of_takeUntil? (endsDeclaration_of_header known blank _) stops
        simp only [length_append, length_cons] at bound ⊢
        omega
  obtain ⟨pieces, scanned⟩ :=
    exists_scanFrom_append (front ++ gap) header none (Nat.zero_le _) short
  have atEnd : endsDeclaration [] = true := rfl
  obtain ⟨body, rest, stops⟩ := exists_takeUntil? atEnd inner
  have blankLast : ((front ++ gap).getLast?.or none).any isWord = false := by
    have last : ∀ c ∈ (front ++ gap).getLast?, isBlank c = true := by
      refine last_append (fun c inFront => ?_) fun c last =>
        allBlank_iff.mp blank c (mem_of_getLast? last)
      · rcases start with rfl | ⟨lead, rfl⟩
        · cases inFront
        · rw [getLast?_concat] at inFront
          cases inFront
          rfl
    rw [Option.or_none, Option.any_eq_false_iff_get]
    exact fun some_ => isWord_of_isBlank (last _ (Option.get_mem some_))
  have found := blockAt?_eq_some_iff.mpr ⟨blankLast, inner, rest, plain, stops, rfl⟩
  obtain ⟨c, tail, rfl⟩ : ∃ c tail, header = c :: tail := by
    obtain ⟨-, _, _, -, -, -, rfl⟩ := plain
    cases type <;> exact ⟨_, _, rfl⟩
  have here : Piece.found (name, body) ∈
      scanFrom (blockAt? type endsDeclaration) none 0 (front ++ gap ++ c :: tail) := by
    rw [scanned, scanFrom, found]
    exact mem_append_right _ mem_cons_self
  rw [← append_assoc]
  exact mem_map.mpr ⟨_, mem_filterMap.mpr ⟨_, here, rfl⟩, rfl⟩

end Lint.Fallback

namespace Keyed

theorem sublist_ofOccurrences (entries : List (Text × α)) :
    (ofOccurrences entries).Sublist entries := by
  induction entries with
  | nil => exact .slnil
  | cons entry entries ih =>
    rw [ofOccurrences]
    exact (filter_sublist.trans ih).cons_cons entry

theorem sublist_values (entries : List (Text × α)) :
    (ofOccurrences entries).values.Sublist (entries.map Prod.snd) :=
  (sublist_ofOccurrences entries).map Prod.snd

/-- No name gets lost among the first entries. -/
theorem mem_names_ofOccurrences {occurrences : List (Text × α)}
    (member : name ∈ occurrences.map Prod.fst) :
    name ∈ (ofOccurrences occurrences).map Prod.fst := by
  induction occurrences with
  | nil => cases member
  | cons occurrence occurrences ih =>
    obtain ⟨key, value⟩ := occurrence
    rw [ofOccurrences, map_cons]
    by_cases same : name = key
    · exact mem_cons.mpr (.inl same)
    · rw [map_cons] at member
      obtain ⟨entry, inRest, rfl⟩ := mem_map.mp (ih (mem_of_ne_of_mem same member))
      refine mem_cons_of_mem _ (mem_map_of_mem (mem_filter.mpr ⟨inRest, ?_⟩))
      exact decide_eq_true same

end Keyed

/-- A kind other than the default one is that of its word. -/
theorem eq_word_of_find? {all : List α} {word : α → String} {other kind : α} (known : kind ≠ other)
    (found : (all.find? fun kind => (word kind).toList = type).getD other = kind) :
    type = (word kind).toList := by
  cases here : all.find? fun kind => (word kind).toList = type with
  | none =>
    rw [here] at found
    exact absurd found.symm known
  | some first =>
    rw [here] at found
    obtain rfl : first = kind := found
    have same := find?_some here
    exact (of_decide_eq_true same).symm

theorem Lexed.number_of_getElem? {place : Nat} {line : Line}
    (found : (ofText properties text).lines[place]? = some line) : line.number = place := by
  have numbers := congrArg (·[place]?) (number_ofText properties text)
  obtain ⟨inside, rfl⟩ := List.getElem?_eq_some_iff.mp found
  simpa [inside] using numbers

theorem Lexed.getElem?_number {line : Line} (member : line ∈ (ofText properties text).lines) :
    (ofText properties text).lines[line.number]? = some line := by
  obtain ⟨place, found⟩ := mem_iff_getElem?.mp member
  rwa [number_of_getElem? found]

theorem Shape.Reading.isHeader {shape : Shape}
    (reading : Reading properties text shape) (named : shape.name? = some name) :
    ∃ body, IsHeader (splitComment (trim text)).1 (shape.key?.getD []) name body := by
  cases reading with
  | @blockOpen key other _ _ _ _ opened =>
    obtain rfl : other = some name := named
    rw [ofBlockOpener] at opened
    split at opened
    next found =>
      cases opened
      exact ⟨[], blockOpen?_eq_some_iff.mp found⟩
    next => cases opened
  | inlineBlock _ _ _ _ found =>
    obtain rfl := Option.some.inj named
    obtain ⟨inner, tail, header, -⟩ := inlineBlock?_eq_some_iff.mp found
    exact ⟨_, header⟩
  | blank | comment | blockClose | segmentInline | segmentOpen | property | content => cases named

/-- Every block of a document that has a name has its header on a line of the text. -/
theorem Document.exists_header {node : BlockNode}
    (member : node ∈ (ofText properties text).nodes) :
    ∃ header, text.lines[node.startLine]? = some header ∧ (node.name ≠ [] →
      ∃ body, IsHeader (splitComment (trim header)).1 node.type node.name body) := by
  obtain ⟨-, line, rest, -, inLines, found⟩ := exists_of_mem_nodes member
  obtain ⟨type, name⟩ : node.type = line.shape.key?.getD [] ∧
      node.name = line.shape.name?.getD [] := by
    cases found <;> exact ⟨rfl, rfl⟩
  refine ⟨line.text, ?_, fun named => ?_⟩
  · rw [found.startLine]
    exact Lexed.getElem?_text (Lexed.getElem?_number inLines)
  · obtain ⟨level, read⟩ := (Lexed.run_ofText properties text).exists_of_mem inLines
    rw [type, name] at *
    cases present : line.shape.name? with
    | none => simp [present] at named
    | some name =>
      have outside := read.eq_outside (by rintro shape; simp [shape, Shape.name?] at present)
        (by rintro shape; simp [shape, Shape.name?] at present)
      rw [outside] at read
      exact read.reading.isHeader present

theorem Block.exists_node_of_mem {block : Block} {blocks : List Block} (member : block ∈ blocks)
    (around : List Nat) : ∃ node ∈ allNodes around blocks,
      node.type = block.type.getD [] ∧ node.name = block.name.getD [] ∧
        node.startLine = block.startLine := by
  obtain ⟨front, rest, rfl⟩ := append_of_mem member
  obtain ⟨type, name, properties, inner, startLine, endLine⟩ := block
  rw [allNodes_append, allNodes, nodes]
  refine ⟨_, mem_append_right _ (mem_append_left _ mem_cons_self), rfl, rfl, rfl⟩

namespace Lint

/-- A header line on which the type stands directly before the colon and a blank behind it. -/
def StartsPlainly (type header : Text) : Prop :=
  ∃ c rest, trim header = type ++ ':' :: c :: rest ∧ isBlank c = true

/-- A name of ASCII letters, digits, underscores and plus signs. -/
def IsPlainName (name : Text) : Prop :=
  name ≠ [] ∧ ∀ c ∈ name, Fallback.isPlainNameChar c = true

/-- Every entry of a collection has its header on a line of the text and, if the header and the
name are plain, an entry of its name in another collection. -/
def KeptBy (text type : Text) {α β : Type} (place : α → Option Int) (entries : Keyed α)
    (others : Keyed β) : Prop :=
  ∀ name value, (name, value) ∈ entries → ∃ (number : Nat) (header : Text),
    place value = some (number : Int) ∧ text.lines[number]? = some header ∧
      (StartsPlainly type header → IsPlainName name → name ∈ others.map Prod.fst)

/-- A lint model that misses no plainly written declaration of another one. -/
structure Model.Covers (text : Text) (model other : Model) : Prop where
  views : KeptBy text "view".toList ViewSpec.line other.views model.views
  explores : KeptBy text "explore".toList ExploreSpec.line other.explores model.explores
  models : KeptBy text "model".toList ModelSpec.line other.models model.models

/-- A header that is read by structure and is plainly written is one for the fallback reader. -/
theorem StartsPlainly.isPlainHeader {header body : Text}
    (starts : StartsPlainly type header) (plain : IsPlainName name)
    (isHeader : IsHeader (splitComment (trim header)).1 type name body) :
    ∃ inner, Fallback.IsPlainHeader type name (trim header) inner := by
  obtain ⟨c, rest, same, blank⟩ := starts
  obtain ⟨extra, whole⟩ := exists_behind_code (trim header)
  obtain ⟨-, named, first, second, third, blankFirst, blankSecond, blankThird, code⟩ := isHeader
  have parts : first ++ ':' :: (second ++ (name ++ (third ++ '\x7b' :: (body ++ extra)))) =
      ':' :: c :: rest := by
    have parts := whole.symm.trans same
    rw [code] at parts
    simpa using parts
  -- Blanks stand only behind the colon, and there is at least one.
  obtain rfl := eq_nil_of_solid blankFirst (solid_head (c := ':') (by rw [parts]; rfl) rfl)
  have spaced : second ≠ [] := by
    rintro rfl
    obtain ⟨d, name, rfl⟩ := exists_cons_of_ne_nil plain.1
    obtain ⟨rfl, -⟩ := cons.inj (cons.inj parts).2
    rw [isBlank_of_isNameChar (named d mem_cons_self)] at blank
    cases blank
  exact ⟨body ++ extra, plain, second, third, spaced, blankSecond, blankThird, by
    rw [same, ← parts]; rfl⟩

/-- A named block of a document with a plain header is found by the fallback reader. -/
theorem Fallback.mem_blocks_of_node (known : type ∈ declarationTypes)
    {node : BlockNode} (member : node ∈ (Document.ofText properties text).nodes)
    (typed : node.type = type) :
    ∃ header, text.lines[node.startLine]? = some header ∧
      (StartsPlainly type header → IsPlainName node.name →
        node.name ∈ (blocks type endsDeclaration text).map Prod.fst) := by
  obtain ⟨header, found, isHeader⟩ := Document.exists_header member
  refine ⟨header, found, fun starts plain => ?_⟩
  obtain ⟨body, isHeader⟩ := isHeader plain.1
  rw [typed] at isHeader
  obtain ⟨inner, plainHeader⟩ := starts.isPlainHeader plain isHeader
  have occupied : text ≠ [] := by
    rintro rfl
    cases found
  rw [lines_of_ne_nil occupied] at found
  obtain ⟨_, _, split, -⟩ := exists_of_getElem? found
  obtain ⟨front, rest, whole, begins⟩ := exists_of_splitBreaks split
  have start : front = [] ∨ ∃ lead, front = lead ++ ['\n'] :=
    begins.imp And.right And.right
  obtain ⟨gap, tail, blank, -, line⟩ := exists_trim header
  have found := mem_blocks_of_header known start blank (plainHeader.append (tail ++ rest))
  have same : front ++ (gap ++ (trim header ++ (tail ++ rest))) = text := by
    conv_rhs => rw [whole, line]
    simp
  rwa [same] at found

/-- A collection that is read from the blocks of a type keeps what is read by structure. -/
theorem KeptBy.of_nodes (properties : List Text)
    (known : type ∈ Fallback.declarationTypes) {β : Type} {place : α → Option Int}
    {entries : List (Text × α)} {read : Text → Text → β}
    (nodes : ∀ entry ∈ entries, ∃ node ∈ (Document.ofText properties text).nodes,
      node.type = type ∧ node.name = entry.1 ∧ place entry.2 = some (node.startLine : Int)) :
    KeptBy text type place (.ofOccurrences entries)
      (.ofOccurrences ((Fallback.blocks type Fallback.endsDeclaration text).map
        fun block => (block.1, read block.1 block.2))) := by
  intro name value member
  obtain ⟨node, isNode, typed, rfl, line⟩ := nodes _ ((Keyed.sublist_ofOccurrences _).subset member)
  obtain ⟨header, found, kept⟩ := Fallback.mem_blocks_of_node known isNode typed
  refine ⟨node.startLine, header, line, found, fun starts plain => ?_⟩
  apply Keyed.mem_names_ofOccurrences
  rw [map_map]
  exact kept starts plain

theorem exists_node_of_declaration {document : Document} {kind : DeclarationKind}
    (known : kind ≠ .other) {declaration : Declaration}
    (member : declaration ∈ document.declarationsOf kind) :
    ∃ node ∈ document.nodes, node.type = kind.word.toList ∧ node.name = declaration.name ∧
      some (declaration.startLine : Int) = some (node.startLine : Int) := by
  obtain ⟨isDeclaration, kind⟩ := mem_filter.mp member
  refine ⟨_, mem_flatMap.mpr ⟨declaration, isDeclaration, mem_cons_self⟩, ?_, rfl, rfl⟩
  exact eq_word_of_find? known (of_decide_eq_true kind)

theorem exists_node_of_explore {document : Document} {declaration : Declaration}
    (isDeclaration : declaration ∈ document.declarations) {explore : ExploreSpec}
    (member : explore ∈ exploresOf declaration) :
    ∃ node ∈ document.nodes, node.type = "explore".toList ∧ node.name = explore.name ∧
      explore.line = some (node.startLine : Int) := by
  unfold exploresOf at member
  split at member
  next kind =>
    obtain rfl := mem_singleton.mp member
    have ofKind : declaration ∈ document.declarationsOf .explore :=
      mem_filter.mpr ⟨isDeclaration, decide_eq_true kind⟩
    exact exists_node_of_declaration (by decide) ofKind
  next =>
    obtain ⟨block, isBlock, rfl⟩ := mem_map.mp member
    obtain ⟨inBody, type⟩ := mem_filter.mp isBlock
    obtain ⟨node, isNode, sameType, name, startLine⟩ :=
      Block.exists_node_of_mem inBody [declaration.startLine]
    refine ⟨node, mem_flatMap.mpr ⟨declaration, isDeclaration, ?_⟩, ?_, name, ?_⟩
    · exact mem_cons_of_mem _ (mem_append_left _ isNode)
    · rw [sameType, of_decide_eq_true type]
      rfl
    · rw [startLine]
      rfl
  next => cases member

/-- The fallback reader misses no declaration that is found by structure and plainly written,
whatever stands around it. -/
theorem Fallback.covers_read (settings : FormatSettings) (text : Text) :
    (Fallback.read text).Covers text (structuralModel settings text) where
  views := by
    refine KeptBy.of_nodes settings.segmentProperties (by decide) ?_
    rintro entry member
    obtain ⟨declaration, ofKind, rfl⟩ := List.mem_map.mp member
    exact exists_node_of_declaration (by decide) ofKind
  explores := by
    refine KeptBy.of_nodes settings.segmentProperties (by decide) ?_
    rintro entry member
    obtain ⟨explore, found, rfl⟩ := List.mem_map.mp member
    obtain ⟨declaration, isDeclaration, member⟩ := List.mem_flatMap.mp found
    exact exists_node_of_explore isDeclaration member
  models := by
    refine KeptBy.of_nodes settings.segmentProperties (by decide) ?_
    rintro entry member
    obtain ⟨declaration, ofKind, rfl⟩ := List.mem_map.mp member
    exact exists_node_of_declaration (by decide) ofKind

/-- Headers in comments and in segments do not hide the view that stands between them. -/
example :
    let text : Text := ("# view: w \x7b\nview: v \x7b # view: u \x7b\n  sql_table_name:\n" ++
      "view: x \x7b\n ;;\n\x7d").toList
    (structuralModel {} text).views.map Prod.fst = ["v".toList] ∧
      (Fallback.read text).views.map Prod.fst = ["w".toList, "v".toList, "x".toList] := by
  decide +kernel

end Lint

end LookML
