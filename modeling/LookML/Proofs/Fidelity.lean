import LookML.Proofs.Reassembly

/-!
# Formatting keeps the structure of a document

The text that an intact document is laid out as has the same structure: the same
declarations one after another, in each the same properties and blocks, the fields in the
order in which they were arranged, and the same values at the top level.  Two kinds of line
are excepted, since they are read as something else once they are laid out: those whose
value turns into a comment or stops being one, and those that end a segment twice.
-/

namespace LookML

open Text Code List

variable {final : Level} {lines : List Line} {declaration : Declaration}

/-- Whether a line stands at the top level and is no header. -/
def Line.isLooseTop (line : Line) : Bool :=
  line.depth = 0 &&
    match line.shape with
    | .blockOpen .. | .inlineBlock .. => false
    | _ => true

/-- The lines of loose text. -/
def Item.looseLines : Item → List Line
  | .loose lines => lines
  | .declaration _ => []

namespace Outline

/-- All loose lines so far. -/
def looseLines (outline : Outline) : List Line :=
  outline.items.flatMap Item.looseLines ++ outline.loose

/-- All declarations so far. -/
def declarations (outline : Outline) : List Declaration :=
  outline.items.filterMap Item.declaration?

variable {outline : Outline}

theorem looseLines_settled (outline : Outline) :
    outline.settled.flatMap Item.looseLines = outline.looseLines := by
  unfold settled looseLines
  split
  next empty => rw [List.isEmpty_iff.mp empty, append_nil]
  next => simp [Item.looseLines]

theorem declarations_settled (outline : Outline) :
    outline.settled.filterMap Item.declaration? = outline.declarations := by
  unfold settled declarations
  split
  next => rfl
  next =>
    rw [filterMap_append]
    exact append_nil _

/-- The declarations of an outline, the open one as far as it goes. -/
def begun (outline : Outline) : List Declaration :=
  outline.declarations ++ outline.declaration.toList.map OpenDeclaration.abandon

theorem declarations_finish (outline : Outline) :
    outline.finish.filterMap Item.declaration? = outline.begun := by
  unfold finish begun
  cases outline.declaration with
  | none => rw [declarations_settled, Option.toList_none, map_nil, append_nil]
  | some declaration =>
    rw [filterMap_append]
    rfl

section Loose

variable {properties : List Text} {level : Level} {line : Line}

theorem looseLines_add (sound : outline.Sound (Line.ReadAt properties) level)
    (read : line.ReadAt properties level) :
    (outline.add line).looseLines = outline.looseLines ++ [line].filter Line.isLooseTop := by
  have inside {declaration : OpenDeclaration} (open_ : outline.declaration = some declaration) :
      line.isLooseTop = false := by
    have deep := (sound.declaration declaration open_).2.depth
    rw [← read.depth] at deep
    have notTop : ¬ line.depth = 0 := by omega
    simp [Line.isLooseTop, notTop]
  have step := outline.step_add line
  generalize outline.add line = next at step
  cases step with
  | within open_ added => simp [inside open_, looseLines]
  | completes open_ added => simp [inside open_, looseLines, Item.looseLines]
  | opens none_ top shape =>
    have header : line.isLooseTop = false := by simp [Line.isLooseTop, shape]
    simpa [header, looseLines] using looseLines_settled outline
  | inline none_ top shape =>
    have header : line.isLooseTop = false := by simp [Line.isLooseTop, shape]
    simpa [header, looseLines, Item.looseLines] using looseLines_settled outline
  | loose none_ plain =>
    have top : line.depth = 0 := read.depth.trans (sound.loose none_).1
    obtain ⟨noHeader, noInline⟩ := plain top
    have isLoose : line.isLooseTop = true := by
      cases shape : line.shape with
      | blockOpen key name => exact absurd shape (noHeader key name)
      | inlineBlock key name value => exact absurd shape (noInline key name value)
      | _ => simp [Line.isLooseTop, top, shape]
    simp [isLoose, looseLines]

theorem looseLines_foldl (run : Run (Line.ReadAt properties) level lines final)
    (sound : outline.Sound (Line.ReadAt properties) level) :
    (lines.foldl add outline).looseLines = outline.looseLines ++ lines.filter Line.isLooseTop := by
  induction run generalizing outline with
  | nil => simp
  | @cons level final line lines read _ ih =>
    rw [foldl_cons, ih (sound.add .refl read), looseLines_add sound read,
      append_assoc, ← filter_append, singleton_append]

end Loose

end Outline

/-- The value that a line gives a property at the top level. -/
def Line.topValue? (key : Text) (line : Line) : Option Text :=
  match line.shape with
  | .property found value =>
    if line.depth = 0 ∧ found = key then some (unquote (stripTerminator value)) else none
  | _ => none

def Entry.topValue? (key : Text) : Entry → Option Text
  | .single line => line.topValue? key
  | .grouped _ => none

section Values

variable {settings : FormatSettings} {line other : Line} {again : List Line}

theorem Document.topLevelValues_eq (lines : List Line) (key : Text) :
    topLevelValues lines key = lines.filterMap (Line.topValue? key) :=
  rfl

theorem Line.topValue?_of_segment (inside : line.shape.inSegment = true) (key : Text) :
    line.topValue? key = none := by
  unfold topValue?
  split
  next shape =>
    rw [shape] at inside
    cases inside
  next => rfl

theorem Line.topValue?_of_header (header : line.isLooseTop = false) (key : Text) :
    line.topValue? key = none := by
  unfold topValue?
  split
  next found value shape =>
    have deep : ¬ line.depth = 0 := by simpa [isLooseTop, shape] using header
    rw [if_neg fun top => deep top.1]
  next => rfl

theorem Line.Echo.topValue? (echo : line.Echo other) (key : Text) :
    other.topValue? key = line.topValue? key := by
  unfold Line.topValue?
  rw [echo.shape, echo.depth]
  cases shape : line.shape with
  | property found value =>
    have same := Layout.stripTerminator_tidyValue (echo.value found value shape)
    simp only [Shape.tidied, same]
  | _ => rfl

/-- Top-level values are given by lines outside segments. -/
theorem Entries.filterMap_topValue? {reads : Level → Line → Prop} {depth : Nat}
    {entries : List Entry} (grouped : Entries reads depth lines entries final) (key : Text) :
    lines.filterMap (Line.topValue? key) = entries.filterMap (Entry.topValue? key) := by
  have none_ {line : Line} (inside : line.shape.inSegment = true) :=
    Line.topValue?_of_segment inside key
  have body {body : List Line} (content : ∀ line ∈ body, line.shape = .segmentContent) :
      body.filterMap (Line.topValue? key) = [] := by
    apply filterMap_eq_nil_iff.mpr
    intro line member
    exact none_ (by rw [content line member]; rfl)
  induction grouped with
  | nil => rfl
  | @single _ line lines entries _ _ _ _ _ ih =>
    have here : Entry.topValue? key (.single line) = line.topValue? key := rfl
    rw [filterMap_cons, filterMap_cons, ih, here]
  | inline _ shape _ ih =>
    rw [filterMap_cons_none (none_ (by rw [shape]; rfl)), filterMap_cons_none rfl, ih]
  | closed _ shape content _ close _ ih =>
    rw [filterMap_append, filterMap_cons_none (none_ (by rw [shape]; rfl)),
      body fun line member => (content line member).2,
      filterMap_cons_none (none_ (by rw [close]; rfl)), filterMap_cons_none rfl, ih]
    rfl
  | unfinished _ shape content =>
    rw [filterMap_cons_none (none_ (by rw [shape]; rfl)),
      body fun line member => (content line member).2]
    rfl

theorem Echoes.filterMap_topValue? {entries rest : List Entry}
    (echoes : Echoes settings entries rest)
    (key : Text) :
    rest.filterMap (Entry.topValue? key) = entries.filterMap (Entry.topValue? key) := by
  induction echoes with
  | nil => rfl
  | @dropped line _ _ blank _ ih =>
    have silent : Entry.topValue? key (.single line) = none := by
      simp only [Entry.topValue?, Line.topValue?, blank]
    rw [filterMap_cons_none silent, ih]
  | cons echo _ ih =>
    cases echo with
    | grouped => exact ih
    | single echo =>
      have same := echo.topValue? key
      simp only [filterMap_cons, Entry.topValue?, same, ih]

theorem Reread.topLevelValues {verbatim : Bool} {depth : Nat}
    (run : settings.Reads (.outside depth) lines final)
    (run' : settings.Reads (.outside depth) again final)
    (reread : Reread settings verbatim lines again) (key : Text) :
    Document.topLevelValues again key = Document.topLevelValues lines key := by
  have grouped := run.entries .refl
  have grouped' := run'.entries .refl
  rw [Document.topLevelValues_eq, Document.topLevelValues_eq, grouped.filterMap_topValue?,
    grouped'.filterMap_topValue?]
  exact reread.echoes.filterMap_topValue? key

end Values

/-- The parts of an outline, laid out. -/
def FormatSettings.outline (settings : FormatSettings) (outline : Outline) : List Text :=
  outline.items.flatMap settings.item ++ settings.lines true outline.loose

/-- What parts of a document add to an outline once they have been laid out and read. -/
structure Outline.Rebuilt (settings : FormatSettings) (items : List Item) (before after : Outline) :
    Prop where
  complete : after.declaration = none
  declarations : ∃ again, after.declarations = before.declarations ++ again ∧
    List.Forall₂ (Declaration.Echo settings) (items.filterMap Item.declaration?) again
  values : ∀ key, Document.topLevelValues after.looseLines key =
    Document.topLevelValues before.looseLines key ++
      Document.topLevelValues (items.flatMap Item.looseLines) key
  closes : ∀ line ∈ after.looseLines, line.shape = .blockClose →
    line ∈ before.looseLines ∨ ∃ source ∈ items.flatMap Item.looseLines, source.shape = .blockClose
  layout : (∀ declaration ∈ items.filterMap Item.declaration?, ¬ declaration.Dangles) →
    settings.outline after = settings.outline before ++ items.flatMap settings.item

section Items

variable {settings : FormatSettings} {outline : Outline} {first : List Line}

theorem FormatSettings.outline_settled (settings : FormatSettings) (outline : Outline) :
    outline.settled.flatMap settings.item = settings.outline outline := by
  unfold Outline.settled FormatSettings.outline
  split
  next empty =>
    rw [List.isEmpty_iff.mp empty]
    exact (append_nil _).symm
  next => simp [item]

namespace Outline

theorem foldl_loose (none_ : outline.declaration = none) (isLoose : ∀ line ∈ first, line.IsLoose) :
    first.foldl add outline = { outline with loose := outline.loose ++ first } := by
  induction first generalizing outline with
  | nil => simp
  | cons line first ih =>
    obtain ⟨noHeader, noInline⟩ := isLoose line mem_cons_self
    have added : outline.add line = { outline with loose := outline.loose ++ [line] } := by
      have step := outline.step_add line
      generalize outline.add line = next at step
      cases step with
      | within open_ | completes open_ => rw [none_] at open_; cases open_
      | opens _ _ shape => exact absurd shape (noHeader _ _)
      | inline _ _ shape => exact absurd shape (noInline _ _ _)
      | loose => rfl
    have later : first.foldl add { outline with loose := outline.loose ++ [line] } = _ :=
      ih none_ (forall_mem_cons.mp isLoose).2
    rw [foldl_cons, added, later]
    simp

theorem Rebuilt.nil (none_ : outline.declaration = none) : Rebuilt settings [] outline outline where
  complete := none_
  declarations := ⟨[], by simp, .nil⟩
  values := fun key => (append_nil _).symm
  closes := fun line member _ => .inl member
  layout := fun _ => (append_nil _).symm

theorem Rebuilt.append {items more : List Item} {middle after : Outline}
    (front : Rebuilt settings items outline middle) (back : Rebuilt settings more middle after) :
    Rebuilt settings (items ++ more) outline after where
  complete := back.complete
  declarations := by
    obtain ⟨again, same, echoes⟩ := front.declarations
    obtain ⟨others, sameMore, echoesMore⟩ := back.declarations
    refine ⟨again ++ others, ?_, ?_⟩
    · rw [sameMore, same, append_assoc]
    · rw [filterMap_append]
      exact rel_append echoes echoesMore
  values := by
    intro key
    rw [back.values, front.values, flatMap_append, append_assoc]
    exact congrArg _ filterMap_append.symm
  closes := by
    intro line member close
    rw [flatMap_append]
    rcases back.closes line member close with inMiddle | ⟨source, known, closes⟩
    · rcases front.closes line inMiddle close with old | ⟨source, known, closes⟩
      · exact .inl old
      · exact .inr ⟨source, mem_append_left _ known, closes⟩
    · exact .inr ⟨source, mem_append_right _ known, closes⟩
  layout := by
    intro settled
    rw [filterMap_append] at settled
    rw [back.layout (forall_mem_append.mp settled).2,
      front.layout (forall_mem_append.mp settled).1, flatMap_append,
      append_assoc]

/-- Lines are read as parts that echo the given ones, behind whatever is read before them. -/
def Rebuilds (settings : FormatSettings) (items : List Item) (first : List Line) (final : Level) :
    Prop :=
  final = .outside 0 ∧ ∀ outline : Outline, outline.declaration = none →
    outline.Sound (Line.ReadAt settings.segmentProperties) (.outside 0) →
    Rebuilt settings items outline (first.foldl add outline)

theorem rebuilt_loose (stable : Run (Line.Stable settings) (.outside 0) lines (.outside 0))
    (isLoose : ∀ line ∈ lines, line.IsLoose)
    (run : settings.Reads (.outside 0) first final)
    (written : first.map Line.text = settings.lines true lines) :
    Rebuilds settings [.loose lines] first final := by
  obtain ⟨rfl, reread⟩ := stable.reread true rfl (written ▸ Layout.Thinned.refl _) run
  have isLoose' : ∀ line ∈ first, line.IsLoose := by
    intro line member
    obtain ⟨source, known, echo | ⟨-, inside⟩⟩ := reread.mem line member
    · obtain ⟨noHeader, noInline⟩ := isLoose source known
      unfold Line.IsLoose
      rw [echo.shape]
      cases shape : source.shape with
      | blockOpen key name => exact absurd shape (noHeader key name)
      | inlineBlock key name value => exact absurd shape (noInline key name value)
      | _ => simp [Shape.tidied]
    · constructor
      · intro key name shape
        rw [shape] at inside
        cases inside
      · intro key name value shape
        rw [shape] at inside
        cases inside
  refine ⟨rfl, fun outline none_ sound => ?_⟩
  rw [foldl_loose none_ isLoose']
  obtain ⟨-, looseRun, -⟩ := sound.loose none_
  have behind : looseLines { outline with loose := outline.loose ++ first } =
      outline.looseLines ++ first := by
    simp [looseLines]
  have only : [Item.loose lines].flatMap Item.looseLines = lines := append_nil lines
  exact
    { complete := none_
      declarations := ⟨[], (append_nil _).symm, .nil⟩
      values := by
        intro key
        have same :=
          Reread.topLevelValues (stable.mono fun _ _ stable => stable.read) run reread key
        rw [behind, only, ← same]
        exact filterMap_append
      closes := by
        intro line member close
        rw [behind] at member
        rw [only]
        rcases mem_append.mp member with old | new
        · exact .inl old
        · obtain ⟨source, known, echo | ⟨-, inside⟩⟩ := reread.mem line new
          · rw [echo.shape] at close
            exact .inr ⟨source, known, (Shape.tidied_eq_blockClose _).mp close⟩
          · rw [close] at inside
            cases inside
      layout := by
        intro _
        have single : [Item.loose lines].flatMap settings.item = settings.lines true lines :=
          append_nil _
        rw [FormatSettings.outline, FormatSettings.outline, settings.lines_append true looseRun rfl,
          reread.stays, written, single, append_assoc] }

theorem rebuilt_declaration {again : Declaration} (echo : declaration.Echo settings again) :
    Rebuilt settings [.declaration declaration] outline
      { items := outline.settled ++ [.declaration again] } where
  complete := rfl
  declarations := by
    refine ⟨[again], ?_, .cons echo .nil⟩
    rw [← declarations_settled outline]
    exact filterMap_append
  values := by
    intro key
    have same : looseLines { items := outline.settled ++ [.declaration again] } =
        outline.looseLines := by
      rw [← looseLines_settled outline]
      simp [looseLines, Item.looseLines]
    rw [same]
    exact (append_nil _).symm
  closes := by
    intro line member _
    refine .inl ?_
    rw [← looseLines_settled outline]
    simpa [looseLines, Item.looseLines] using member
  layout := by
    intro settled
    have written := echo.written (settled declaration (by simp [Item.declaration?]))
    rw [← settings.outline_settled outline, FormatSettings.outline]
    simp [FormatSettings.item, written, FormatSettings.lines, Entry.group, Entry.groupFrom]

theorem rebuilt_item {item : Item} (sound : item.Sound (Line.Stable settings) (.outside 0))
    (ascending : Ascending first)
    (run : settings.Reads (.outside 0) first final)
    (written : first.map Line.text = settings.item item) :
    Rebuilds settings [item] first final := by
  cases item with
  | loose lines =>
    obtain ⟨-, stable, isLoose⟩ := sound
    exact rebuilt_loose stable isLoose run written
  | declaration declaration =>
    rw [← append_nil first] at run
    obtain ⟨ended, again, adds, echo⟩ : declaration.ReadsBack settings first [] final := by
      rcases sound with ⟨-, inline | closed⟩ | abandoned
      · exact reread_inline_declaration inline run written
      · exact reread_closed_declaration closed ascending run written
      · exact absurd abandoned.depth (by simp)
    cases ended
    refine ⟨rfl, fun outline none_ _ => ?_⟩
    rw [adds outline none_]
    exact rebuilt_declaration echo

theorem rebuilt_items {items : List Item}
    (sound : ∀ item ∈ items, item.Sound (Line.Stable settings) (.outside 0))
    (ascending : Ascending first)
    (run : settings.Reads (.outside 0) first final)
    (written : first.map Line.text = items.flatMap settings.item) :
    Rebuilds settings items first final := by
  induction items generalizing first with
  | nil =>
    cases map_eq_nil_iff.mp written
    cases run
    exact ⟨rfl, fun outline none_ _ => .nil none_⟩
  | cons item items ih =>
    rw [flatMap_cons] at written
    obtain ⟨front, back, rfl, frontText, backText⟩ := map_eq_append_iff.mp written
    obtain ⟨frontAscending, backAscending, -⟩ := pairwise_append.mp ascending
    obtain ⟨middle, frontRun, backRun⟩ := run.split
    obtain ⟨rfl, frontBuilds⟩ :=
      rebuilt_item (sound item mem_cons_self) frontAscending frontRun frontText
    obtain ⟨ended, backBuilds⟩ := ih (forall_mem_cons.mp sound).2
      backAscending backRun backText
    refine ⟨ended, fun outline none_ soundOutline => ?_⟩
    have here := frontBuilds outline none_ soundOutline
    rw [foldl_append]
    exact here.append (backBuilds _ here.complete (soundOutline.foldl .refl frontRun))

end Outline

end Items

/-- Lines classified by themselves. -/
def Lexed.ofLines (properties texts : List Text) : Lexed :=
  let lines := ({} : Nesting).classify properties 0 texts
  { lines
    anomalies := lines.filterMap Line.anomaly? ++ (lines.foldl Nesting.advance {}).leftovers }

section Intact

variable (properties texts : List Text)

theorem Lexed.ofText_eq (text : Text) : ofText properties text = ofLines properties text.lines :=
  rfl

theorem Lexed.run_ofLines :
    Run (Line.ReadAt properties) (.outside 0) (ofLines properties texts).lines
    ((ofLines properties texts).lines.foldl Nesting.advance {}).level :=
  Nesting.run_classify properties {} 0 texts

theorem Lexed.ascending_ofLines : Ascending (ofLines properties texts).lines := by
  have numbers := Nesting.number_classify properties {} 0 texts
  apply pairwise_map.mp
  rw [ofLines, numbers]
  exact pairwise_lt_range'

theorem Nesting.leftovers_eq_nil_iff (nesting : Nesting) :
    nesting.leftovers.any (·.kind.breaksNesting) = false ↔ nesting.level = .outside 0 := by
  obtain ⟨blocks, segment⟩ := nesting
  cases segment with
  | some segment =>
    simp [leftovers, level, Level.outside, AnomalyKind.breaksNesting]
  | none =>
    cases blocks with
    | nil => simp [leftovers, level, depth, Level.outside]
    | cons block blocks => simp [leftovers, level, depth, Level.outside, AnomalyKind.breaksNesting]

theorem Line.breaksNesting_iff (line : Line) :
    (line.anomaly?.any (·.kind.breaksNesting)) = true ↔
      line.shape = .blockClose ∧ line.depth = 0 := by
  unfold anomaly?
  split
  next shape =>
    split
    next top => simp [top, shape, AnomalyKind.breaksNesting]
    next deep => simp [deep]
  next shape => simp [shape, AnomalyKind.breaksNesting]
  next other _ =>
    rw [Option.any_none]
    exact ⟨fun holds => absurd holds Bool.false_ne_true, fun both => absurd both.1 other⟩

/-- A document is intact if no brace closes what was not opened, and nothing is left open. -/
theorem Document.intact_iff : (ofLexed (.ofLines properties texts)).nestingBroken = false ↔
    (∀ line ∈ (Lexed.ofLines properties texts).lines,
      ¬ (line.shape = .blockClose ∧ line.depth = 0)) ∧
      ((Lexed.ofLines properties texts).lines.foldl Nesting.advance {}).level = .outside 0 := by
  have both : (ofLexed (.ofLines properties texts)).nestingBroken =
      (((Lexed.ofLines properties texts).lines.filterMap Line.anomaly?).any
        (·.kind.breaksNesting) ||
        ((Lexed.ofLines properties texts).lines.foldl Nesting.advance {}).leftovers.any
          (·.kind.breaksNesting)) :=
    any_append
  rw [both, Bool.or_eq_false_iff, Nesting.leftovers_eq_nil_iff, any_filterMap, any_eq_false]
  refine and_congr (forall₂_congr fun line member => ?_) Iff.rfl
  rw [← Line.breaksNesting_iff]
  cases line.anomaly? with
  | none | some anomaly => exact Iff.rfl

end Intact

section Unbroken

variable {settings : FormatSettings} {depth : Nat}

theorem Layout.Thinned.subset {texts rest : List Text} (thinned : Thinned texts rest) :
    rest ⊆ texts := by
  induction thinned with
  | nil => exact List.Subset.refl _
  | keep line _ ih => exact cons_subset_cons line ih
  | drop _ ih => exact subset_cons_of_subset _ ih

theorem Run.unbroken (run : Run (Line.Stable settings) (.outside depth) lines final)
    (verbatim : Bool) :
    ∀ text ∈ settings.lines verbatim lines, Unbroken text :=
  FormatSettings.unbroken_entries (fun _ _ stable => ⟨stable.read, stable.unbroken⟩) verbatim
    (run.entries fun _ _ stable => stable.read)

theorem Run.unbroken_collapse (run : Run (Line.Stable settings) (.outside depth) lines final) :
    ∀ text ∈ Layout.collapseBlankLines (settings.lines false lines), Unbroken text :=
  fun text member => run.unbroken false text ((Layout.thinned_collapseBlankLines _).subset member)

theorem Line.Stable.unbroken_line {line : Line} (stable : line.Stable settings (.outside depth)) :
    Unbroken (settings.line line) :=
  FormatSettings.unbroken_line stable.read stable.unbroken

theorem Field.Complete.unbroken {field : Field} (complete : field.Complete (Line.Stable settings)) :
    ∀ text ∈ settings.field field, Unbroken text := by
  have steady := Run.of_quiet fun line member => .inl (complete.remarks line member)
  rw [FormatSettings.field]
  exact forall_mem_append.mpr ⟨steady.unbroken false, complete.run.unbroken false⟩

theorem Section.unbroken_chunks {part : Section}
    (complete : ∀ field ∈ part.fields, field.Complete (Line.Stable settings)) :
    ∀ chunk ∈ settings.chunks part, ∀ text ∈ chunk, Unbroken text := by
  rw [FormatSettings.chunks]
  cases markers : part.markers? with
  | none =>
    intro chunk member
    obtain ⟨field, isField, rfl⟩ := mem_map.mp member
    exact (complete field isField).unbroken
  | some both =>
    obtain ⟨first, last⟩ := both
    have plain : Unbroken first ∧ Unbroken last := by
      unfold markers? at markers
      split at markers
      next category _ =>
        split at markers
        next =>
          cases markers
          cases category <;> decide
        next => cases markers
      next => cases markers
    have indented {marker : Text} (unbroken : Unbroken marker) (depth : Nat) :
        Unbroken (settings.indent depth ++ marker) :=
      unbroken_append.mpr ⟨settings.unbroken_indent depth, unbroken⟩
    have members : ∀ text ∈ part.fields.flatMap fun field => [] :: settings.field field,
        Unbroken text := by
      intro text member
      obtain ⟨field, isField, inField⟩ := mem_flatMap.mp member
      exact forall_mem_cons.mpr ⟨unbroken_nil, (complete field isField).unbroken⟩ text inField
    intro chunk member
    rw [mem_singleton.mp member]
    refine forall_mem_append.mpr ⟨forall_mem_cons.mpr ⟨indented plain.1 _, members⟩, ?_⟩
    exact forall_mem_singleton.mpr (indented plain.2 _)

theorem Declaration.Closed.unbroken (closed : declaration.Closed (Line.Stable settings)) :
    ∀ text ∈ settings.declaration declaration, Unbroken text := by
  obtain ⟨key, name, opens⟩ := closed.opens
  obtain ⟨footer, hasFooter, footerStable, -⟩ := closed.footer
  have chunks : ∀ text ∈ ((Section.arrange settings.groupFields settings.sortFields
      declaration.fields).flatMap settings.chunks).flatMap fun chunk => [] :: chunk,
        Unbroken text := by
    intro text member
    obtain ⟨chunk, inChunks, inChunk⟩ := mem_flatMap.mp member
    obtain ⟨part, inSections, isChunk⟩ := mem_flatMap.mp inChunks
    have complete := fun field isField =>
      closed.complete field (Section.mem_of_mem_arrange inSections field isField)
    exact forall_mem_cons.mpr ⟨unbroken_nil,
      Section.unbroken_chunks complete chunk isChunk⟩ text inChunk
  have trailing : ∀ text ∈ settings.trailing declaration.trailing, Unbroken text := by
    have steady := Run.of_quiet closed.trailing
    rw [FormatSettings.trailing]
    split
    next => simp
    next => exact forall_mem_cons.mpr ⟨unbroken_nil, steady.unbroken_collapse⟩
  rw [settings.declaration_eq_interior opens hasFooter, FormatSettings.interior]
  refine forall_mem_cons.mpr ⟨closed.readHeader.unbroken_line, forall_mem_append.mpr ⟨?_, ?_⟩⟩
  · exact forall_mem_append.mpr ⟨closed.run.unbroken_collapse,
      forall_mem_append.mpr ⟨chunks, trailing⟩⟩
  · exact forall_mem_singleton.mpr footerStable.unbroken_line

theorem Item.Sound.unbroken {item : Item} (sound : item.Sound (Line.Stable settings) (.outside 0)) :
    ∀ text ∈ settings.item item, Unbroken text := by
  cases item with
  | loose lines => exact sound.2.1.unbroken true
  | declaration declaration =>
    rcases sound with ⟨-, inline | closed⟩ | abandoned
    · obtain ⟨key, name, value, shape⟩ := inline.shape
      rw [FormatSettings.item, FormatSettings.declaration, shape]
      exact forall_mem_singleton.mpr inline.header.unbroken_line
    · exact closed.unbroken
    · exact absurd abandoned.depth (by simp)

end Unbroken

/-- Fields of the same kind and name whose properties and blocks are alike. -/
structure Field.Alike (settings : FormatSettings) (field again : Field) : Prop where
  kind : again.kind = field.kind
  name : again.name = field.name
  body : field.body.Alike settings again.body

/-- Declarations of the same type and name whose properties and blocks are alike, and
whose fields are alike in the order in which the settings arrange them. -/
structure Declaration.Alike (settings : FormatSettings) (declaration again : Declaration) :
    Prop where
  kind : again.kind = declaration.kind
  typeName : again.typeName = declaration.typeName
  name : again.name = declaration.name
  body : declaration.body.Alike settings again.body
  fields : List.Forall₂ (Field.Alike settings)
    (Section.arranged settings.groupFields settings.sortFields declaration.fields) again.fields

/-- An intact document with the declarations of another one and its top-level values. -/
structure Document.Alike (settings : FormatSettings) (document again : Document) : Prop where
  intact : again.nestingBroken = false
  declarations : List.Forall₂ (Declaration.Alike settings) document.declarations again.declarations
  includes : again.includes = document.includes
  connection : again.connection = document.connection

/-- Whether every line is read as what it is once it has been spaced by itself. -/
def Lexed.Stays (lexed : Lexed) : Prop :=
  ∀ line ∈ lexed.lines, ¬ line.shape.Reopens

/-- Whether no line that ends a segment would still end one without its terminator. -/
def Lexed.ClosesOnce (lexed : Lexed) : Prop :=
  ∀ line ∈ lexed.lines, line.shape = .segmentClose → ¬ line.ClosesTwice

/-- Whether every line is read as what it is once it has been laid out. -/
def Lexed.Steady (lexed : Lexed) : Prop :=
  lexed.Stays ∧ lexed.ClosesOnce

instance (lexed : Lexed) : Decidable lexed.Stays :=
  inferInstanceAs (Decidable (∀ line ∈ lexed.lines, _))

instance (lexed : Lexed) : Decidable lexed.ClosesOnce :=
  inferInstanceAs (Decidable (∀ line ∈ lexed.lines, _))

instance (lexed : Lexed) : Decidable lexed.Steady :=
  inferInstanceAs (Decidable (_ ∧ _))

section Complete

variable {properties : List Text} {lexed : Lexed}

theorem Outline.declaration_of_run
    (run : Run (Line.ReadAt properties) (.outside 0) lines (.outside 0)) :
    (lines.foldl add {}).declaration = none := by
  have sound := (sound_empty (Line.ReadAt properties)).foldl .refl run
  cases open_ : (lines.foldl add {}).declaration with
  | none => rfl
  | some declaration => exact absurd (sound.declaration declaration open_).2.depth (by simp)

theorem Document.topLevelValues_filter (lines : List Line) (key : Text) :
    topLevelValues (lines.filter Line.isLooseTop) key = topLevelValues lines key := by
  rw [topLevelValues_eq, topLevelValues_eq, filterMap_filter]
  apply filterMap_congr
  intro line _
  split
  next => rfl
  next header => exact (Line.topValue?_of_header (Bool.eq_false_iff.mpr header) key).symm

variable (run : Run (Line.ReadAt properties) (.outside 0) lexed.lines (.outside 0))
include run

/-- Where nothing is left open, a document is what its outline is. -/
theorem Document.items_ofLexed :
    (ofLexed lexed).items = (lexed.lines.foldl Outline.add {}).settled := by
  rw [ofLexed, Outline.finish, Outline.declaration_of_run run]

theorem Document.looseLines_ofLexed :
    (ofLexed lexed).items.flatMap Item.looseLines = lexed.lines.filter Line.isLooseTop := by
  rw [items_ofLexed run, Outline.looseLines_settled,
    Outline.looseLines_foldl run (Outline.sound_empty _)]
  rfl

theorem Document.topLevelValues_ofLexed (key : Text) :
    topLevelValues ((ofLexed lexed).items.flatMap Item.looseLines) key =
      topLevelValues lexed.lines key := by
  rw [looseLines_ofLexed run, topLevelValues_filter]

end Complete

section Structure

variable {settings : FormatSettings}

theorem Field.Echo.alike {field again : Field} (echo : field.Echo settings again) :
    field.Alike settings again where
  kind := echo.kind
  name := echo.name
  body := by
    have depth : again.depth = field.depth := echo.opening.depth
    rw [body, body, depth]
    exact Body.alike_ofLines _ echo.inner.tells

theorem Declaration.Echo.typeName {again : Declaration}
    (echo : declaration.Echo settings again) : again.typeName = declaration.typeName := by
  rw [Declaration.typeName, Declaration.typeName, echo.header.key?]

theorem Declaration.Echo.alike {again : Declaration} (echo : declaration.Echo settings again) :
    declaration.Alike settings again where
  kind := by rw [kind, kind, echo.typeName]
  typeName := echo.typeName
  name := by rw [name, name, echo.header.name?]
  body := by
    have depth : again.childDepth = declaration.childDepth :=
      congrArg (· + 1) echo.header.depth
    rw [body, body, depth]
    exact Body.alike_ofLines _ echo.content
  fields := echo.fields.imp fun _ _ echo => echo.alike

theorem Run.with_mem {reads : Level → Line → Prop} {level : Level}
    {known : Line → Prop} (run : Run reads level lines final) (all : ∀ line ∈ lines, known line) :
    Run (fun level line => reads level line ∧ known line) level lines final := by
  induction run with
  | nil => exact .nil _
  | cons read _ ih =>
    exact .cons ⟨read, all _ mem_cons_self⟩ (ih (forall_mem_cons.mp all).2)

theorem Lexed.unbroken_ofText (properties : List Text) {text : Text} (plain : '\r' ∉ text) :
    ∀ line ∈ (ofText properties text).lines, Unbroken line.text := by
  intro line member
  exact unbroken_lines plain line.text (text_mem_lines member)

variable {text : Text} (plain : '\r' ∉ text)
  (intact : (Document.ofText settings.segmentProperties text).nestingBroken = false)
  (steady : (Lexed.ofText settings.segmentProperties text).Steady)
include plain intact steady

theorem Lexed.run_stable : Run (Line.Stable settings) (.outside 0)
    (ofText settings.segmentProperties text).lines (.outside 0) := by
  have run := run_ofText settings.segmentProperties text
  have ended := ((Document.intact_iff settings.segmentProperties text.lines).mp intact).2
  rw [← ofText_eq] at ended
  rw [ended] at run
  have texts := unbroken_ofText settings.segmentProperties plain
  have known := ((run.with_mem texts).with_mem steady.1).with_mem steady.2
  refine known.mono fun level line known => ?_
  exact ⟨known.1.1.1, known.1.1.2, known.1.2, known.2⟩

/-- The parts of a text that is intact and steady, and what their layout is read as. -/
theorem Document.sound_stable : ∀ item ∈ (ofText settings.segmentProperties text).items,
    item.Sound (Line.Stable settings) (.outside 0) := by
  intro item member
  have sound := sound_items (fun _ _ stable => stable.read)
    (Lexed.run_stable plain intact steady) item member
  exact sound.elim id id

/-- What the layout of a document is read as. -/
theorem Document.rebuilt_layout {texts : List Text}
    (written : texts = settings.document (ofText settings.segmentProperties text)) :
    ((Lexed.ofLines settings.segmentProperties texts).lines.foldl Nesting.advance {}).level =
      .outside 0 ∧
      Outline.Rebuilt settings (ofText settings.segmentProperties text).items {}
        ((Lexed.ofLines settings.segmentProperties texts).lines.foldl Outline.add {}) := by
  have same : (Lexed.ofLines settings.segmentProperties texts).lines.map Line.text =
      (ofText settings.segmentProperties text).items.flatMap settings.item := by
    rw [← FormatSettings.document, ← written]
    exact Nesting.text_classify settings.segmentProperties {} 0 texts
  obtain ⟨ended, builds⟩ := Outline.rebuilt_items (sound_stable plain intact steady)
    (Lexed.ascending_ofLines settings.segmentProperties texts) (Lexed.run_ofLines _ _) same
  exact ⟨ended, builds {} rfl (Outline.sound_empty _)⟩

theorem Document.alike_layout {texts : List Text}
    (written : texts = settings.document (ofText settings.segmentProperties text)) :
    (ofText settings.segmentProperties text).Alike settings
      (ofLexed (.ofLines settings.segmentProperties texts)) := by
  obtain ⟨ended, rebuilt⟩ := rebuilt_layout plain intact steady written
  have run := Lexed.run_ofLines settings.segmentProperties texts
  rw [ended] at run
  have source := (Lexed.run_stable plain intact steady).mono fun _ _ stable => stable.read
  have values (key : Text) :
      topLevelValues (Lexed.ofLines settings.segmentProperties texts).lines key =
      topLevelValues (Lexed.ofText settings.segmentProperties text).lines key := by
    rw [← topLevelValues_ofLexed run, ← topLevelValues_ofLexed source, items_ofLexed run,
      Outline.looseLines_settled, rebuilt.values]
    rfl
  refine ⟨(intact_iff _ _).mpr ⟨?_, ended⟩, ?_, values _, congrArg List.head? (values _)⟩
  · rintro line member ⟨close, top⟩
    have inLoose : line ∈ ((Lexed.ofLines settings.segmentProperties texts).lines.foldl
        Outline.add {}).looseLines := by
      rw [← Outline.looseLines_settled, ← items_ofLexed run, looseLines_ofLexed run]
      exact mem_filter.mpr ⟨member, by simp [Line.isLooseTop, close, top]⟩
    rcases rebuilt.closes line inLoose close with none_ | ⟨origin, known, closes⟩
    · cases none_
    · rw [ofText, looseLines_ofLexed source] at known
      obtain ⟨inText, isTop⟩ := mem_filter.mp known
      have top : origin.depth = 0 := by
        simp only [Line.isLooseTop, Bool.and_eq_true, decide_eq_true_eq] at isTop
        exact isTop.1
      exact ((intact_iff _ _).mp intact).1 origin inText ⟨closes, top⟩
  · obtain ⟨again, same, echoes⟩ := rebuilt.declarations
    have declarations :
        (ofLexed (.ofLines settings.segmentProperties texts)).declarations = again := by
      rw [declarations, items_ofLexed run, Outline.declarations_settled, same]
      rfl
    rw [declarations]
    exact echoes.imp fun _ _ echo => echo.alike

theorem Document.unbroken_layout :
    ∀ line ∈ settings.document (ofText settings.segmentProperties text), Unbroken line := by
  intro line member
  obtain ⟨item, isItem, inItem⟩ := mem_flatMap.mp member
  exact (sound_stable plain intact steady item isItem).unbroken line inItem

omit plain steady in
theorem FormatSettings.formatText_of_intact : settings.formatText text =
    joinLines (settings.document (Document.ofText settings.segmentProperties text)) := by
  unfold formatText
  split
  next empty =>
    rw [List.isEmpty_iff.mp empty]
    rfl
  next =>
    dsimp only
    rw [intact, if_neg Bool.false_ne_true]

/-- Formatting an intact text whose lines are steady keeps its structure. -/
theorem Document.alike_formatText : (ofText settings.segmentProperties text).Alike settings
    (ofText settings.segmentProperties (settings.formatText text)) := by
  rw [settings.formatText_of_intact intact]
  by_cases blank : settings.document (ofText settings.segmentProperties text) = [[]]
  · -- A single empty line is written as the empty text, which has no lines.
    have alike := alike_layout plain intact steady blank.symm
    rw [blank]
    exact ⟨rfl, alike.declarations, alike.includes, alike.connection⟩
  · have lines := lines_joinLines (unbroken_layout plain intact steady) blank
    exact alike_layout plain intact steady lines

end Structure

/-- A view with its fields out of order, one of them with a segment on several lines. -/
def unsortedView : Text :=
  "view: v \x7b\n  filter: b \x7b\n    sql: a\n    ;;\n  \x7d\n  # key\n  filter: a \x7b\n  \x7d\n\x7d".toList

theorem Document.alike_formatText_unsortedView : '\r' ∉ unsortedView ∧
    (ofText ({} : FormatSettings).segmentProperties unsortedView).nestingBroken = false ∧
    (Lexed.ofText ({} : FormatSettings).segmentProperties unsortedView).Steady ∧
    (ofText ({} : FormatSettings).segmentProperties unsortedView).Alike {}
      (ofText ({} : FormatSettings).segmentProperties
        (({} : FormatSettings).formatText unsortedView)) := by
  have plain : '\r' ∉ unsortedView := by decide +kernel
  have intact : (ofText ({} : FormatSettings).segmentProperties unsortedView).nestingBroken =
      false := by
    decide +kernel
  have steady : (Lexed.ofText ({} : FormatSettings).segmentProperties unsortedView).Steady := by
    decide +kernel
  exact ⟨plain, intact, steady, alike_formatText plain intact steady⟩

/-- A block on one line whose body begins like a comment becomes a header that nothing
closes: the space before the body makes it a comment. -/
theorem Document.nestingBroken_formatText_body :
    (ofText ({} : FormatSettings).segmentProperties
      "view: v \x7b\n  a: \x7b# b \x7d\n\x7d".toList).nestingBroken = false ∧
    (ofText ({} : FormatSettings).segmentProperties
      (({} : FormatSettings).formatText
        "view: v \x7b\n  a: \x7b# b \x7d\n\x7d".toList)).nestingBroken = true := by
  decide +kernel

end LookML
