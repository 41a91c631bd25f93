import LookML.Proofs.Renaming

/-!
# Blocks that violations point at

A violation names the block that it is about and the view or explore around it.  Its line is that
of the header of the block, read as such, and it lies in the first view or explore of the name,
which may be an explore in a model.
-/

namespace LookML

open Text List

variable {block : Block} {depth : Nat} {entries : List Entry}

/-- The header of a block of a type and a name stands on a line.  A name that cannot be read counts
as empty. -/
def Lexed.Opens (lexed : Lexed) (number : Nat) (type name : Text) : Prop :=
  ∃ line name?, lexed.lines[number]? = some line ∧
    line.shape = .blockOpen (some type) name? ∧ name?.getD [] = name

/-- A line from the header of a block to its closing brace, or to the end of the text. -/
def Block.Holds (block : Block) (number : Nat) : Prop :=
  block.startLine ≤ number ∧ ∀ last ∈ block.endLine, number ≤ last

/-- A block whose header stands among entries, with its blocks and its closing brace behind it. -/
def Block.ReadIn (block : Block) (depth : Nat) (entries : List Entry) : Prop :=
  ∃ front line rest, entries = front ++ .single line :: rest ∧ line.number = block.startLine ∧
    line.shape = .blockOpen block.type block.name ∧
    block.blocks = (Member.read (depth + 1)
      (Entry.cutAtClose (depth + 1) rest).1).filterMap Member.block? ∧
    block.endLine = (Entry.cutAtClose (depth + 1) rest).2.1.map (·.number)

theorem Block.ReadIn.behind (readIn : block.ReadIn depth entries) (earlier : List Entry) :
    block.ReadIn depth (earlier ++ entries) := by
  obtain ⟨front, line, rest, rfl, more⟩ := readIn
  exact ⟨earlier ++ front, line, rest, by simp, more⟩

/-- A block with children has a header of its own. -/
theorem Member.readIn_of_mem (known : .block block ∈ read depth entries)
    (occupied : block.properties ≠ [] ∨ block.blocks ≠ []) : block.ReadIn depth entries := by
  fun_induction read depth entries with
  | case1 => cases known
  | case2 segment entries ih => exact (ih (by simpa using known)).behind [_]
  | case3 depth segment entries elsewhere ih => exact (ih known).behind [_]
  | case4 line entries key value shape ih => exact (ih (by simpa using known)).behind [_]
  | case5 line entries key name value shape ih =>
    rcases mem_cons.mp known with same | behind
    · cases same
      simp at occupied
    · exact (ih behind).behind [_]
  | case6 line entries key name shape cut members inside behind =>
    rcases mem_cons.mp known with same | other
    · cases same
      exact ⟨[], line, entries, rfl, rfl, shape, rfl, rfl⟩
    · have parts := (Entry.cutAtClose_parts (line.depth + 1) entries).1
      have whole := (behind other).behind (.single line :: (cut.1 ++ cut.2.1.toList.map .single))
      rw [cons_append, append_assoc, ← parts] at whole
      exact whole
  | case7 line entries _ _ _ ih | case8 depth line entries elsewhere ih =>
    exact (ih known).behind [_]

theorem Member.mem_of_mem_blocks {members : List Member}
    (known : block ∈ members.filterMap block?) : .block block ∈ members := by
  obtain ⟨found, isMember, same⟩ := mem_filterMap.mp known
  cases found with
  | property => cases same
  | block => exact Option.some.inj same ▸ isMember

/-- A block inside another lies between its header and its closing brace. -/
theorem Block.ReadIn.inner {inner : Block}
    (readIn : block.ReadIn depth entries) (ascending : Ascending (entries.map Entry.opening))
    (known : inner ∈ block.blocks) (occupied : inner.properties ≠ [] ∨ inner.blocks ≠ []) :
    block.Holds inner.startLine ∧ ∃ line, .single line ∈ entries ∧
      line.number = inner.startLine ∧ line.shape = .blockOpen inner.type inner.name := by
  obtain ⟨front, header, rest, rfl, start, -, blocks, ends⟩ := readIn
  rw [blocks] at known
  obtain ⟨before, line, after, split, number, shape, -, -⟩ :=
    Member.readIn_of_mem (Member.mem_of_mem_blocks known) occupied
  have parts := (Entry.cutAtClose_parts (depth + 1) rest).1
  rw [split] at parts
  have whole : front ++ .single header :: rest = (front ++ .single header :: before) ++
      .single line :: (after ++ ((Entry.cutAtClose (depth + 1) rest).2.1.toList.map .single ++
        (Entry.cutAtClose (depth + 1) rest).2.2)) := by
    nth_rewrite 1 [parts]
    simp
  rw [whole] at ascending ⊢
  rw [map_append, map_cons] at ascending
  obtain ⟨above, below⟩ := ascending.around
  refine ⟨⟨?_, fun last isLast => ?_⟩, line, by simp, number, shape⟩
  · rw [← start, ← number]
    exact Nat.le_of_lt (above header (by simp [Entry.opening]))
  · rw [ends] at isLast
    obtain ⟨closing, isClosing, rfl⟩ := Option.map_eq_some_iff.mp isLast
    rw [← number]
    exact Nat.le_of_lt (below closing (by simp [isClosing, Entry.opening]))

section Texts

variable {properties : List Text} {text : Text} {declaration : Declaration}
  (member : declaration ∈ (Document.ofText properties text).declarations)
include member

/-- The lines of a declaration stand in the text, between its header and its closing brace. -/
theorem Document.inside_of_mem {line : Line} (inside : line ∈ declaration.lines) :
    (Lexed.ofText properties text).lines[line.number]? = some line ∧
      declaration.block.Holds line.number := by
  obtain ⟨stretch, isInfix, holds⟩ :=
    exists_stretch .refl (Lexed.run_ofText properties text) (mem_items member)
  have inStretch := Item.Holds.subset holds line inside
  have ascending := (Lexed.ascending_ofText properties text).sublist isInfix.sublist
  exact ⟨Lexed.getElem?_number (isInfix.subset inStretch),
    Declaration.Holds.bounds holds ascending line inStretch⟩

/-- A declaration with content opens with its header. -/
theorem Document.opens_of_content (occupied : declaration.content ≠ [])
    (known : declaration.kind ≠ .other) :
    (Lexed.ofText properties text).Opens declaration.startLine declaration.kind.word.toList
      declaration.name := by
  have here := (inside_of_mem member (show declaration.header ∈ _ from mem_cons_self)).1
  obtain ⟨key, name, shape⟩ : ∃ key name, declaration.header.shape = .blockOpen key name := by
    have run := Lexed.run_ofText properties text
    obtain ⟨_, sound⟩ := exists_sound .refl run (mem_items member)
    rcases sound with ⟨-, inline | closed⟩ | abandoned
    · exact absurd (by rw [inline.eq]) occupied
    · exact closed.opens
    · exact abandoned.shape
  have isKind : declaration.typeName = _ := eq_word_of_find? known rfl
  rw [Declaration.typeName, shape] at isKind
  cases key with
  | none => exact absurd (by rw [Declaration.kind, Declaration.typeName, shape]; rfl) known
  | some key =>
    refine ⟨declaration.header, name, here, ?_, by rw [Declaration.name, shape]; rfl⟩
    rw [shape, ← isKind]
    rfl

/-- A line with a header in the content of a declaration opens a block inside it. -/
theorem Document.opens_of_single {line : Line} {type : Text} {name? : Option Text}
    (isEntry : .single line ∈ Entry.group declaration.content)
    (shape : line.shape = .blockOpen (some type) name?) :
    (Lexed.ofText properties text).Opens line.number type (name?.getD []) ∧
      declaration.block.Holds line.number := by
  have inContent : line ∈ declaration.content := by
    rw [← Entry.flatMap_lines_group declaration.content]
    exact mem_flatMap.mpr ⟨_, isEntry, mem_singleton_self line⟩
  obtain ⟨here, holds⟩ :=
    inside_of_mem member (show line ∈ _ by simp [Declaration.lines, inContent])
  exact ⟨⟨line, name?, here, shape, rfl⟩, holds⟩

theorem Document.ascending_content :
    Ascending ((Entry.group declaration.content).map Entry.opening) := by
  obtain ⟨stretch, isInfix, holds⟩ :=
    exists_stretch .refl (Lexed.run_ofText properties text) (mem_items member)
  exact (Lexed.ascending_ofText properties text).sublist ((Entry.openings_sublist _).trans
    ((Declaration.Holds.content holds).trans isInfix.sublist))

omit member in
/-- A block with properties in an explore has its header between those of the explore. -/
theorem Document.opens_of_explore {inner : Block} {type : Text}
    (known : block ∈ (ofText properties text).explores) (isInner : inner ∈ block.blocks)
    (typed : inner.type = some type) (occupied : inner.properties ≠ []) :
    (Lexed.ofText properties text).Opens block.startLine "explore".toList (block.name.getD []) ∧
      (Lexed.ofText properties text).Opens inner.startLine type (inner.name.getD []) ∧
      block.Holds inner.startLine := by
  obtain ⟨declaration, member, isBlock⟩ := mem_flatMap.mp known
  split at isBlock
  next kind =>
    cases mem_singleton.mp isBlock
    obtain ⟨front, line, rest, split, number, shape, -⟩ :=
      Member.readIn_of_mem (Member.mem_of_mem_blocks isInner) (.inl occupied)
    rw [typed] at shape
    have content : declaration.content ≠ [] := by
      intro none_
      rw [none_] at split
      simp [Entry.group, Entry.groupFrom] at split
    have opens := opens_of_content member content (by rw [kind]; decide)
    obtain ⟨inside, holds⟩ := opens_of_single member (by simp [split]) shape
    rw [kind] at opens
    rw [number] at inside holds
    exact ⟨opens, inside, holds⟩
  next kind =>
    obtain ⟨inBody, isExplore⟩ := mem_filter.mp isBlock
    have readIn := Member.readIn_of_mem (Member.mem_of_mem_blocks inBody)
      (.inr (ne_nil_of_mem isInner))
    obtain ⟨holds, line, isEntry, number, shape⟩ :=
      readIn.inner (ascending_content member) isInner (.inl occupied)
    obtain ⟨front, header, rest, split, start, opens, -⟩ := readIn
    rw [typed] at shape
    rw [of_decide_eq_true isExplore] at opens
    have outer := (opens_of_single member (by simp [split]) opens).1
    have inside := (opens_of_single member isEntry shape).1
    rw [start] at outer
    rw [number] at inside
    exact ⟨outer, inside, holds⟩
  next => cases isBlock

end Texts

namespace Lint

/-- A view or an explore of a name. -/
inductive Owner where
  | view (name : Text)
  | explore (name : Text)
  deriving Repr, DecidableEq

namespace Owner

def type : Owner → Text
  | view _ => "view".toList
  | explore _ => "explore".toList

def name : Owner → Text
  | view name | explore name => name

/-- The first view or explore of the name. -/
def find? (document : Document) : Owner → Option Block
  | view name => (document.view? name).map Declaration.block
  | explore name => document.explore? name

end Owner

/-- What a violation is about: a block of a type and a name, in a view or an explore. -/
structure Subject where
  owner : Owner
  type : Text
  name : Text
  deriving Repr, DecidableEq

/-- What the data of a violation say it is about. -/
def Violation.subject? (violation : Violation) : Option Subject := do
  if violation.rule = "E1".toList then
    return ⟨.explore (← violation.data.get? "explore".toList), "join".toList,
      ← violation.data.get? "join".toList⟩
  else
    let view ← violation.data.get? "view".toList
    if violation.rule = "F1".toList then
      return ⟨.view view, ← violation.data.get? "field_type".toList,
        ← violation.data.get? "field".toList⟩
    else
      match violation.data.get? "field".toList with
      | some field => return ⟨.view view, "dimension".toList, field⟩
      | none => return ⟨.view view, "view".toList, view⟩

/-- The header of a subject stands on a line, in the first view or explore of the name, which opens
with a header of its own. -/
structure Subject.StandsAt (subject : Subject) (document : Document) (lexed : Lexed)
    (number : Nat) : Prop where
  header : lexed.Opens number subject.type subject.name
  owner : ∃ block, subject.owner.find? document = some block ∧ block.Holds number ∧
    lexed.Opens block.startLine subject.owner.type subject.owner.name

section Breaches

variable {properties : List Text} {text : Text} {declaration : Declaration}
  (first : (Document.ofText properties text).view? declaration.name = some declaration)
  (backed : (ViewSpec.ofDeclaration declaration).isTableBacked = true)
include first backed

theorem opens_of_view : declaration ∈ (Document.ofText properties text).declarations ∧
    (Lexed.ofText properties text).Opens declaration.startLine "view".toList declaration.name := by
  obtain ⟨member, isView⟩ := mem_filter.mp (mem_of_find?_eq_some first)
  have kind : declaration.kind = .view := of_decide_eq_true isView
  have opens := Document.opens_of_content member (ViewSpec.content_ne_nil backed)
    (by rw [kind]; decide)
  rw [kind] at opens
  exact ⟨member, opens⟩

theorem standsAt_of_field {field : Field} (isField : field ∈ declaration.fields)
    (known : field.kind ≠ .other) :
    Subject.StandsAt ⟨.view declaration.name, field.kind.word.toList, field.name⟩
      (.ofText properties text) (.ofText properties text) field.startLine := by
  obtain ⟨member, opens⟩ := opens_of_view first backed
  obtain ⟨-, -, -, shape, -⟩ := Document.header_of_field member isField known
  obtain ⟨here, holds⟩ :=
    Document.inside_of_mem member (Declaration.opening_mem_lines isField)
  exact ⟨⟨field.opening, _, here, shape, rfl⟩, declaration.block, by rw [Owner.find?, first]; rfl,
    holds, opens⟩

end Breaches

variable {settings : Settings} {text : Text} {violation : Violation}

theorem Breach.standsAt {properties : List Text}
    (breach : Breach (.ofDocument (.ofText properties text)) violation) :
    ∃ subject, ∃ number : Nat, violation.subject? = some subject ∧
      violation.line = some (number : Int) ∧
      subject.StandsAt (.ofText properties text) (.ofText properties text) number := by
  cases breach with
  | missingKey known _ =>
    obtain ⟨isView, backed⟩ := mem_filter.mp known
    obtain ⟨declaration, first, rfl⟩ := Model.exists_view isView
    obtain ⟨member, opens⟩ := opens_of_view first backed
    have holds := (Document.inside_of_mem member (show declaration.header ∈ _ from mem_cons_self)).2
    exact ⟨⟨.view declaration.name, "view".toList, declaration.name⟩, declaration.startLine, rfl,
      rfl, opens, declaration.block, by rw [Owner.find?, first]; rfl, holds, opens⟩
  | misnamedKey known isField =>
    obtain ⟨isView, backed⟩ := mem_filter.mp known
    obtain ⟨declaration, first, rfl⟩ := Model.exists_view isView
    obtain ⟨field, inFields, kind, rfl⟩ := ViewSpec.exists_field isField
    have stands := standsAt_of_field first backed inFields (by rw [kind]; decide)
    rw [kind] at stands
    exact ⟨_, field.startLine, rfl, rfl, stands⟩
  | inJoin known isJoin isBare =>
    obtain ⟨block, first, rfl⟩ := Model.exists_explore known
    obtain ⟨inner, isInner, typed, rfl⟩ := ExploreSpec.exists_join isJoin
    have occupied : inner.properties ≠ [] := by
      intro none_
      rw [JoinSpec.ofBlock, Block.get?, none_] at isBare
      cases isBare
    obtain ⟨outer, inside, holds⟩ :=
      Document.opens_of_explore (mem_of_find?_eq_some first) isInner typed occupied
    exact ⟨⟨.explore (block.name.getD []), "join".toList, inner.name.getD []⟩, inner.startLine, rfl,
      rfl, inside, block, first, holds, outer⟩
  | inField property place reference known isCollection isField =>
    obtain ⟨isView, backed⟩ := mem_filter.mp known
    obtain ⟨declaration, first, rfl⟩ := Model.exists_view isView
    obtain ⟨kind, notOther, rfl, -, fields⟩ := exists_kind_of_mem isCollection
    rw [fields] at isField
    obtain ⟨field, inFields, rfl, rfl⟩ := ViewSpec.exists_field isField
    exact ⟨_, field.startLine, rfl, rfl, standsAt_of_field first backed inFields notOther⟩

/-- Every violation points at the block that it is about: its line is a line of the text, the header
of a block of the type and the name it gives, in the first view or explore of the name it gives. -/
theorem standsAt_of_mem_violations (structural : settings.lint.useFallbackReader = false)
    (reported : violation ∈ (lintText settings text).violations) :
    ∃ subject, ∃ number : Nat, violation.subject? = some subject ∧
      violation.line = some (number : Int) ∧ number < text.lines.length ∧
      subject.StandsAt (.ofText settings.format.segmentProperties text)
        (.ofText settings.format.segmentProperties text) number := by
  obtain ⟨found, breach, rfl⟩ := exists_breach structural reported
  obtain ⟨subject, number, about, line, stands⟩ := breach.standsAt
  refine ⟨subject, number, about, line, ?_, stands⟩
  obtain ⟨_, -, here, -⟩ := stands.header
  rw [← Nesting.length_classify settings.format.segmentProperties {} 0 text.lines]
  exact (List.getElem?_eq_some_iff.mp here).1

/-- An explore in a model, and another of its name at the top level. -/
def repeatedExplore : Text :=
  "model: m \x7b\n  explore: e \x7b\n    join: \x7b\n      sql_on: a.b = 1 ;;\n".toList ++
    "    \x7d\n  \x7d\n\x7d\nexplore: e \x7b\n  join: j \x7b\n    sql_on: c.d = 1 ;;\n".toList

theorem standsAt_repeatedExplore :
    ∃ violation ∈ (lintText {} repeatedExplore).violations, violation.line = some 2 ∧
      ∃ subject, violation.subject? = some subject ∧
        subject.StandsAt (.ofText ({} : Settings).format.segmentProperties repeatedExplore)
          (.ofText ({} : Settings).format.segmentProperties repeatedExplore) 2 := by
  obtain ⟨violation, reported, place⟩ :
      ∃ violation ∈ (lintText {} repeatedExplore).violations, violation.line = some 2 := by
    decide +kernel
  obtain ⟨subject, number, about, line, -, stands⟩ :=
    @standsAt_of_mem_violations {} repeatedExplore violation rfl reported
  obtain rfl : number = 2 := Int.ofNat.inj (Option.some.inj (line.symm.trans place))
  exact ⟨violation, reported, place, subject, about, stands⟩

end Lint

end LookML
